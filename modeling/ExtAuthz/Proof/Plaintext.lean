/-
  The warning about plaintext verifier URLs, over the URLs of the generic syntax.

  The check reads the URL up to its first '/'.  This is the authority, unless a
  query or a fragment follows it: then an '@' in there hides the host, and what
  follows the last one is taken for it (`Uri.Decoy`).  And the scheme is compared
  with its case, which schemes do not have.
-/
import ExtAuthz.Lib.Uri
import ExtAuthz.Middleware.UnsafeConfig

namespace ExtAuthz

open Text

/-! ## Texts that name a loopback host -/

/-- `localhost` or an address in `127.0.0.0/8`, up to a colon, or one of these or
    `::1` in brackets, which need not be closed. -/
inductive LoopbackText : String → Prop
  | name {h x} : (Host.name h).isLoopback = true → x = h ∨ (∃ r, x = h ++ ":" ++ r) →
      LoopbackText x
  | literal {h x} : (Host.name h).isLoopback = true ∨ (Host.literal h).isLoopback = true →
      x = h ∨ (∃ r, x = h ++ "]" ++ r) → LoopbackText ("[" ++ x)

theorem isLoopbackHost_iff {h : String} : isLoopbackHost h = true ↔
    (Host.name h).isLoopback = true ∨ (Host.literal h).isLoopback = true := by
  simp only [isLoopbackHost, Host.isLoopback, Bool.or_eq_true]
  tauto

theorem literal_isLoopback {h : String} : (Host.literal h).isLoopback = true ↔ h = "::1" :=
  beq_iff_eq

theorem isLoopbackHost_plaintextHost {x : String} :
    isLoopbackHost (plaintextHost x) = true ↔ LoopbackText x := by
  constructor
  · intro h
    rw [isLoopbackHost_iff] at h
    unfold plaintextHost at h
    split at h
    · rename_i y hy
      rw [stripPrefix_eq_some.1 hy]
      exact .literal h (splitNext_eq_iff.1 rfl).2
    · obtain ⟨hn, hx⟩ := splitNext_eq_iff.1 (rfl : splitNext x ':' = _)
      refine .name (h.resolve_right fun hl => hn ?_) hx
      rw [literal_isLoopback.1 hl]
      decide
  · intro h
    rw [isLoopbackHost_iff]
    cases h with
    | @name h x hl hx =>
      have hs : splitNext x ':' = h :=
        splitNext_eq_iff.2 ⟨Host.notMem_of_name_isLoopback hl (by decide), hx⟩
      unfold plaintextHost
      split
      · -- a loopback name has no bracket
        rename_i y hy
        rw [stripPrefix_eq_some.1 hy, splitNext_append (by decide)] at hs
        exact absurd (by simp [← hs]) (Host.notMem_of_name_isLoopback hl (c := '[') (by decide))
      · rw [hs]
        exact .inl hl
    | @literal h x hl hx =>
      have hn : ']' ∉ h.toList := by
        rcases hl with hl | hl
        · exact Host.notMem_of_name_isLoopback hl (by decide)
        · rw [literal_isLoopback.1 hl]
          decide
      rw [plaintextHost_bracket, splitNext_eq_iff.2 ⟨hn, hx⟩]
      exact hl

/-- After a literal host, only a loopback one names a loopback host. -/
theorem isLoopback_of_literal {s t : String} (hs : (Host.literal s).WellFormed)
    (h : LoopbackText ("[" ++ s ++ "]" ++ t)) : (Host.literal s).isLoopback = true := by
  cases hs with
  | literal hc hv =>
    have hs : splitNext (s ++ "]" ++ t) ']' = s :=
      splitNext_eq_iff.2 ⟨fun hm => hc ']' hm (by decide), .inr ⟨t, rfl⟩⟩
    rw [← isLoopbackHost_plaintextHost, String.append_assoc, String.append_assoc,
      plaintextHost_bracket, ← String.append_assoc, hs, isLoopbackHost_iff] at h
    apply h.resolve_left
    intro hn
    rcases hv with hv | hv | hv
    · exact Host.notMem_of_name_isLoopback hn (by decide) hv
    · exact Host.notMem_of_name_isLoopback hn (by decide) (List.mem_of_mem_head? hv)
    · exact Host.notMem_of_name_isLoopback hn (by decide) (List.mem_of_mem_head? hv)

/-- After a name, what follows in the URL does not make it one either. -/
theorem isLoopback_of_name {s t : String} (hs : (Host.name s).WellFormed)
    (ht : ∀ c ∈ t.toList.head?, c = ':' ∨ IsTerminator c) (h : LoopbackText (s ++ t)) :
    (Host.name s).isLoopback = true := by
  cases hs with
  | name hc =>
    generalize hx : s ++ t = x at h
    cases h with
    | @name h _ hl he =>
      have hh : s ++ splitNext t ':' = h := by
        rw [← splitNext_append fun hm => hc ':' hm (by decide), hx]
        exact splitNext_eq_iff.2 ⟨Host.notMem_of_name_isLoopback hl (by decide), he⟩
      have ht : splitNext t ':' = "" := by
        rw [← String.toList_eq_nil_iff, ← List.head?_eq_none_iff, Option.eq_none_iff_forall_ne_some]
        intro c hc
        have hm : c ∈ h.toList := by
          rw [← hh, String.toList_append]
          exact List.mem_append_right _ (List.mem_of_mem_head? hc)
        obtain ⟨hd, hne⟩ := head?_splitNext.1 hc
        rcases (ht c hd).resolve_left hne with rfl | rfl | rfl <;>
          exact Host.notMem_of_name_isLoopback hl (by decide) hm
      rw [ht, String.append_empty] at hh
      rwa [hh]
    | @literal h y hl he =>
      have hhead := congrArg (fun x => x.toList.head?) hx
      cases hs : s.toList with
      | nil =>
        have hb : t.toList.head? = some '[' := by simpa [hs] using hhead
        exact absurd (ht '[' hb) (by simp [IsTerminator])
      | cons c l =>
        have hb : c = '[' := by simpa [hs] using hhead
        exact absurd (by simp [hb]) (hc c (by simp [hs]))

theorem isLoopback_of_text {u : Uri} {t : String} (ht : ∀ c ∈ t.toList.head?, IsTerminator c)
    (h : LoopbackText (u.host.text ++ (u.portText ++ t))) : u.host.isLoopback = true := by
  have hp : ∀ c ∈ (u.portText ++ t).toList.head?, c = ':' ∨ IsTerminator c := by
    unfold Uri.portText
    cases u.port with
    | none => simpa using fun c hc => .inr (ht c hc)
    | some p => simp
  generalize u.host = host, u.isHost = hh at h
  cases host with
  | name s => exact isLoopback_of_name hh hp h
  | literal s => exact isLoopback_of_literal hh h

/-! ## URLs -/

/-- Before any '/', the rest of the URL has an '@', and after the last one a text
    that names a loopback host. -/
def Decoy (rest : String) : Prop :=
  ∃ before after : String, splitNext rest '/' = before ++ "@" ++ after ∧ '@' ∉ after.toList ∧
    LoopbackText after

theorem rsplitNext_authority (u : Uri) {t : String} (ht : '@' ∉ t.toList) :
    rsplitNext (u.authority ++ t) '@' = u.host.text ++ (u.portText ++ t) := by
  have hn := u.at_notMem
  rw [String.toList_append, List.mem_append, not_or] at hn
  refine rsplitNext_eq_iff.2 ⟨by simp [hn.1, hn.2, ht], ?_⟩
  unfold Uri.authority Uri.userinfoText
  cases u.userinfo with
  | none => exact .inl (by simp [String.append_assoc])
  | some i => exact .inr ⟨i, by simp [String.append_assoc]⟩

/-- On a URL whose host is no loopback host, the check finds one in a decoy only. -/
theorem loopbackText_iff_decoy {u : Uri} (hu : u.host.isLoopback = false) :
    LoopbackText (rsplitNext (splitNext (u.authority ++ u.rest) '/') '@') ↔ Decoy u.rest := by
  have hslash : '/' ∉ u.authority.toList := fun hm => u.not_isTerminator hm (.inl rfl)
  have hskip {before after : String} (hn : '@' ∉ after.toList) :
      rsplitNext (u.authority ++ (before ++ "@" ++ after)) '@' = after :=
    rsplitNext_eq_iff.2 ⟨hn, .inr ⟨u.authority ++ before, by simp only [String.append_assoc]; rfl⟩⟩
  rw [splitNext_append hslash]
  constructor
  · intro h
    have hrest : ∀ c ∈ (splitNext u.rest '/').toList.head?, IsTerminator c :=
      fun c hc => u.isRest c (head?_splitNext.1 hc).1
    obtain ⟨hn, ht⟩ :=
      rsplitNext_eq_iff.1 (rfl : rsplitNext (splitNext u.rest '/') '@' = _)
    generalize rsplitNext (splitNext u.rest '/') '@' = after at hn ht
    rcases ht with ht | ⟨before, ht⟩
    · rw [ht] at h hrest
      rw [rsplitNext_authority u hn] at h
      exact absurd (isLoopback_of_text hrest h) (by simp [hu])
    · rw [ht] at h
      exact ⟨before, after, ht, hn, hskip hn ▸ h⟩
  · rintro ⟨before, after, ht, hn, h⟩
    rwa [ht, hskip hn]

theorem text_eq_http_iff {u : Uri} {r : String} :
    u.text = "http://" ++ r ↔ u.scheme = "http" ∧ u.authority ++ u.rest = r := by
  constructor
  · intro h
    have hl : u.scheme.toList ++ ':' :: ('/' :: '/' :: (u.authority ++ u.rest).toList) =
        "http".toList ++ ':' :: ('/' :: '/' :: r.toList) := by
      simpa [Uri.text] using congrArg String.toList h
    obtain ⟨hs, hr⟩ := split_first_inj u.colon_notMem_scheme (by decide) hl
    refine ⟨String.toList_inj.1 hs, String.toList_inj.1 ?_⟩
    simpa using hr
  · rintro ⟨hs, rfl⟩
    rw [Uri.text, hs]
    rfl

/-- **The plaintext warning**: an `http` URL to a host that is no loopback host is
    warned about exactly when its scheme is in lowercase and no decoy follows.  What
    the check finds is what is logged when a middleware is made with this URL. -/
theorem plaintext_warning_iff (u : Uri) :
    ((eqIgnoreAsciiCase u.scheme "http" = true → u.host.isLoopback = false →
        isPlaintextNonLoopback u.text = true) ↔
      eqIgnoreAsciiCase u.scheme "http" = false ∨ u.host.isLoopback = true ∨
        u.scheme = "http" ∧ ¬ Decoy u.rest) ∧
    ∀ cfg : ExtAuthzConfig, plaintextWarning u.text ∈
        warnOnUnsafeConfig (ExtAuthzConfig.normalized { cfg with verifierUrl := u.text }) ↔
      isPlaintextNonLoopback u.text = true := by
  refine ⟨?_, fun cfg => plaintextWarning_mem_iff⟩
  have hwarn (hu : u.host.isLoopback = false) :
      isPlaintextNonLoopback u.text = true ↔ u.scheme = "http" ∧ ¬ Decoy u.rest := by
    rw [isPlaintextNonLoopback_eq_true, ← loopbackText_iff_decoy hu, ← isLoopbackHost_plaintextHost,
      Bool.not_eq_true]
    constructor
    · rintro ⟨r, hr, h⟩
      obtain ⟨hs, rfl⟩ := text_eq_http_iff.1 hr
      exact ⟨hs, h⟩
    · rintro ⟨hs, h⟩
      exact ⟨_, text_eq_http_iff.2 ⟨hs, rfl⟩, h⟩
  cases eqIgnoreAsciiCase u.scheme "http" with
  | false => simp
  | true =>
    cases hu : u.host.isLoopback with
    | true => simp
    | false => simpa using hwarn hu

/-- `HTTP://verifier.internal:8443/v1/authorize` -/
def shoutedUrl : Uri where
  scheme := "HTTP"
  userinfo := none
  host := .name "verifier.internal"
  port := some "8443"
  rest := "/v1/authorize"
  isScheme := ⟨'H', ['T', 'T', 'P'], by simp⟩
  isUserinfo := nofun
  isHost := .name (by simp)
  isPort := by
    rintro _ ⟨⟩
    simp
  isRest := by
    rintro _ ⟨⟩
    exact .inl rfl

/-- `http://evil.com?@localhost` -/
def decoyUrl : Uri where
  scheme := "http"
  userinfo := none
  host := .name "evil.com"
  port := none
  rest := "?@localhost"
  isScheme := ⟨'h', ['t', 't', 'p'], by simp⟩
  isUserinfo := nofun
  isHost := .name (by simp)
  isPort := nofun
  isRest := by
    rintro _ ⟨⟩
    exact .inr (.inl rfl)

/-- Neither is warned about. -/
theorem not_plaintext_warning :
    (shoutedUrl.text = "HTTP://verifier.internal:8443/v1/authorize" ∧
      eqIgnoreAsciiCase shoutedUrl.scheme "http" = true ∧ shoutedUrl.host.isLoopback = false ∧
      isPlaintextNonLoopback shoutedUrl.text = false) ∧
    (decoyUrl.text = "http://evil.com?@localhost" ∧
      eqIgnoreAsciiCase decoyUrl.scheme "http" = true ∧ decoyUrl.host.isLoopback = false ∧
      isPlaintextNonLoopback decoyUrl.text = false) := by
  decide

end ExtAuthz
