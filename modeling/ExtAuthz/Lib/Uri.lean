/-
  Uri — the URIs with an authority, by the generic syntax of RFC 3986:

    scheme "://" [ userinfo "@" ] host [ ":" port ] rest

  The authority ends at the first '/', '?' or '#' and the userinfo at its last
  '@'.  The components may hold more characters than the RFC lets them, as long
  as they do not end earlier.
-/
import ExtAuthz.Lib.Ipv4
import ExtAuthz.Lib.Text

/-- A registered name or an IPv4 address, or a literal in brackets. -/
inductive Host where
  | name (s : String)
  | literal (s : String)

namespace Host

/-- The text of a host, in its brackets. -/
def text : Host → String
  | name s => s
  | literal s => "[" ++ s ++ "]"

/-- A name has no delimiters.  A literal is an IPv6 address, which has a colon,
    or starts with the `v` of a later version. -/
inductive WellFormed : Host → Prop
  | name {s} : (∀ c ∈ s.toList, c ∉ [':', '/', '?', '#', '[', ']', '@']) → WellFormed (.name s)
  | literal {s} : (∀ c ∈ s.toList, c ∉ ['/', '?', '#', '[', ']', '@']) →
      ':' ∈ s.toList ∨ s.toList.head? = some 'v' ∨ s.toList.head? = some 'V' →
      WellFormed (.literal s)

/-- `localhost`, `[::1]` or an address in `127.0.0.0/8`. -/
def isLoopback : Host → Bool
  | name s => s == "localhost" || (Ipv4Addr.parse s).any Ipv4Addr.isLoopback
  | literal s => s == "::1"

/-- A loopback name has the letters of `localhost`, digits and dots. -/
theorem name_isLoopback {s : String} (h : (name s).isLoopback = true) :
    ∀ c ∈ s.toList, c ∈ "localhost.".toList ∨ c.isDigit = true := by
  rw [isLoopback, Bool.or_eq_true, beq_iff_eq, Option.any_eq_true] at h
  rcases h with rfl | ⟨ip, hp, -⟩
  · intro c hc
    exact .inl (List.mem_append_left ['.'] hc)
  · intro c hc
    rcases Ipv4Addr.isDigit_or_dot_of_parse hp c hc with hd | rfl
    · exact .inr hd
    · exact .inl (by decide)

theorem WellFormed.notMem_text {h : Host} (hh : h.WellFormed) {c : Char}
    (hc : c ∈ ['/', '?', '#', '@']) : c ∉ h.text.toList := by
  intro hm
  cases hh with
  | name hs =>
    refine hs c hm ?_
    fin_cases hc <;> decide
  | literal hs =>
    simp only [text, String.toList_append, List.mem_append] at hm
    rcases hm with (hm | hm) | hm
    · rw [List.mem_singleton.1 hm] at hc
      exact absurd hc (by decide)
    · refine hs c hm ?_
      fin_cases hc <;> decide
    · rw [List.mem_singleton.1 hm] at hc
      exact absurd hc (by decide)

theorem notMem_of_name_isLoopback {s : String} (h : (name s).isLoopback = true) {c : Char}
    (hc : c ∉ "localhost.".toList ∧ c.isDigit = false) : c ∉ s.toList := by
  intro hm
  rcases name_isLoopback h c hm with h' | h'
  · exact hc.1 h'
  · exact absurd h' (by simp [hc.2])

end Host

/-- The characters that end an authority. -/
def IsTerminator (c : Char) : Prop := c = '/' ∨ c = '?' ∨ c = '#'

/-- A URI with an authority. -/
structure Uri where
  scheme : String
  userinfo : Option String
  host : Host
  port : Option String
  /-- The path, the query and the fragment. -/
  rest : String
  isScheme : ∃ c l, scheme.toList = c :: l ∧ c.isAlpha = true ∧
    ∀ d ∈ l, d.isAlphanum = true ∨ d ∈ ['+', '-', '.']
  isUserinfo : ∀ i ∈ userinfo, ∀ c ∈ i.toList, ¬ IsTerminator c
  isHost : host.WellFormed
  isPort : ∀ p ∈ port, ∀ c ∈ p.toList, c.isDigit = true
  isRest : ∀ c ∈ rest.toList.head?, IsTerminator c

namespace Uri

/-- The userinfo, with its `@`. -/
def userinfoText (u : Uri) : String := (u.userinfo.map (· ++ "@")).getD ""

/-- The port, with its `:`. -/
def portText (u : Uri) : String := (u.port.map (":" ++ ·)).getD ""

/-- The authority of a URI. -/
def authority (u : Uri) : String := u.userinfoText ++ (u.host.text ++ u.portText)

/-- The text of a URI. -/
def text (u : Uri) : String := u.scheme ++ "://" ++ (u.authority ++ u.rest)

theorem colon_notMem_scheme (u : Uri) : ':' ∉ u.scheme.toList := by
  obtain ⟨c, l, hl, hc, h⟩ := u.isScheme
  rw [hl, List.mem_cons, not_or]
  constructor
  · rintro rfl
    exact absurd hc (by decide)
  · intro hm
    exact absurd (h ':' hm) (by decide)

theorem digit_of_mem_portText (u : Uri) {c : Char} (h : c ∈ u.portText.toList) :
    c = ':' ∨ c.isDigit = true := by
  unfold portText at h
  cases hp : u.port with
  | none =>
    rw [hp] at h
    cases h
  | some p =>
    rw [hp, Option.map_some, Option.getD_some, String.toList_append, List.mem_append] at h
    rcases h with h | h
    · exact .inl (List.mem_singleton.1 h)
    · exact .inr (u.isPort p hp c h)

/-- The host and the port have no '@'. -/
theorem at_notMem (u : Uri) : '@' ∉ (u.host.text ++ u.portText).toList := by
  rw [String.toList_append, List.mem_append, not_or]
  exact ⟨u.isHost.notMem_text (by decide), fun h => absurd (u.digit_of_mem_portText h) (by decide)⟩

/-- The authority does not end before the rest. -/
theorem not_isTerminator (u : Uri) {c : Char} (h : c ∈ u.authority.toList) :
    ¬ IsTerminator c := by
  intro hc
  rw [authority, String.toList_append, String.toList_append, List.mem_append, List.mem_append] at h
  rcases h with h | h | h
  · unfold userinfoText at h
    cases hi : u.userinfo with
    | none =>
      rw [hi] at h
      cases h
    | some i =>
      rw [hi, Option.map_some, Option.getD_some, String.toList_append, List.mem_append] at h
      rcases h with h | h
      · exact u.isUserinfo i hi c h hc
      · obtain rfl : c = '@' := List.mem_singleton.1 h
        rcases hc with hc | hc | hc <;> exact absurd hc (by decide)
  · refine u.isHost.notMem_text ?_ h
    rcases hc with rfl | rfl | rfl <;> decide
  · have hd := u.digit_of_mem_portText h
    rcases hc with rfl | rfl | rfl <;> exact absurd hd (by decide)

end Uri
