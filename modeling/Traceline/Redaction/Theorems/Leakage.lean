import Traceline.Redaction.Theorems.Leftovers
import Traceline.Redaction.Theorems.Payloads

-- What of a payload is left in its redaction.
namespace Redaction

open Substitution

section Texts

variable (py : Python)

-- A text after the four replacements.
def replaced (cs : List Char) : List Char :=
  let cs := _CANARY.sub (fun _ => REDACTED) none cs
  let cs := (_PROVIDER_TOKEN py).sub (fun _ => REDACTED) none cs
  let cs := (_BEARER py).sub bearer_repl none cs
  (_ASSIGNED_SECRET py).sub secret_repl none cs

def TRUNCATED : List Char :=
  "…[TRUNCATED]".toList

-- The value that is left of an assigned secret is a mark of the redaction, which may be cut short.
def Harmless (m : List Char) : Prop :=
  ∃ k s₁ e s₂ v, m = k ++ (s₁ ++ e :: (s₂ ++ v)) ∧ k.map fold ∈ KEYWORDS ∧
    (∀ c ∈ s₁ ++ s₂, py.isspace c) ∧ e ∈ [':', '='] ∧
    (v = REDACTED ∨ ∃ x, x <+: REDACTED ∧ v = x ++ TRUNCATED)

-- No pattern matches anywhere in a text, but for the marks of the redaction.
structure Safe (cs : List Char) : Prop where
  canary         : _CANARY.Free none cs
  provider_token : (_PROVIDER_TOKEN py).Free none cs
  bearer         : (_BEARER py).Free none cs
  secret         : (_ASSIGNED_SECRET py).Only (Harmless py) none cs

-- A text that ends in what matches as a token of a provider, once no letter follows it.
def EndsInToken (cs : List Char) : Prop :=
  ∃ us w, cs = us ++ (TOKEN ++ w) ∧ boundary py us.getLast? (some 's') ∧ (∀ c ∈ w, tokenChar c) ∧
    12 ≤ w.length ∧ w.getLast?.any py.isname

end Texts

section

variable {py : Python} {cs u x m : List Char} {a : Option Char}

-- What the four replacements leave, the last of which leaves its own marks.
structure Replaced (py : Python) (cs : List Char) : Prop where
  canary         : _CANARY.Free none cs
  provider_token : (_PROVIDER_TOKEN py).Free none cs
  bearer         : (_BEARER py).Free none cs
  secret         : (_ASSIGNED_SECRET py).Only Marked none cs

theorem replaced_spec (hpy : Lawful py) : Replaced py (replaced py cs) where
  canary         :=
    (canary_keeps_secret hpy).free_sub <| canary_keeps_bearer.free_sub <|
      canary_keeps_provider_token.free_sub canary_keeps_canary.only_sub_self
  provider_token :=
    (provider_token_keeps_secret hpy).free_sub <| (provider_token_keeps_bearer hpy).free_sub
      provider_token_keeps_provider_token.only_sub_self
  bearer         := (bearer_keeps_secret hpy).free_sub bearer_keeps_bearer.only_sub_self
  secret         := (secret_keeps_secret hpy).only_sub_self

theorem Marked.harmless (h : Marked m) : Harmless py m := by
  obtain ⟨k, hk, rfl⟩ := h
  refine ⟨k, [], '=', [], REDACTED, rfl, hk, ?_, by decide, .inl rfl⟩
  rintro c ⟨⟩

theorem Replaced.safe (h : Replaced py cs) : Safe py cs where
  canary         := h.canary
  provider_token := h.provider_token
  bearer         := h.bearer
  secret         := h.secret.mono fun _ => Marked.harmless

-- The mark of a cut is not of a pattern.
theorem truncated_bars : ∀ w ∈ TOKEN :: BEARER :: KEYWORDS, Bars w TRUNCATED := by
  decide +kernel

theorem run_none_of_bars {p : Pattern Char} {w R : List Char}
    (hp : ∀ {b cs m}, p.run b cs = some m → w <+: cs.map fold) (hR : Bars w R) :
    ∀ us vs, R = us ++ vs → vs ≠ [] → p.run a vs = none := by
  refine fun us vs hsplit hvs => eq_none_of_ne rfl fun m hm => ?_
  rw [← List.append_nil vs] at hm
  exact absurd hm (within_of_bars hp hR hsplit hvs)

theorem secret_run_none : ∀ us vs, TRUNCATED = us ++ vs → vs ≠ [] →
    (_ASSIGNED_SECRET py).run a vs = none := by
  refine fun us vs hsplit hvs => eq_none_of_ne rfl fun m hm => ?_
  obtain ⟨w, hw, hprefix⟩ := secret_starts hm
  rw [← List.append_nil vs] at hprefix
  exact absurd hprefix <| (truncated_bars w (.tail _ (.tail _ hw))).not_starts hsplit hvs

-- A match in a text that ends in the mark of a cut starts before the mark.
theorem exists_of_cut {p : Pattern Char} {us vs : List Char}
    (hp : ∀ us' vs', TRUNCATED = us' ++ vs' → vs' ≠ [] → p.run a vs' = none)
    (hcs : u ++ TRUNCATED = us ++ vs) (h : p.run a vs = some m) :
    ∃ u', u = us ++ u' ∧ vs = u' ++ TRUNCATED := by
  rcases List.append_eq_append_iff.mp hcs with ⟨us', rfl, htrunc⟩ | ⟨u', rfl, rfl⟩
  · have hvs : vs ≠ [] := by
      rintro rfl
      rw [Pattern.run_nil] at h
      cases h
    rw [hp us' vs htrunc hvs] at h
    cases h
  · exact ⟨u', rfl, rfl⟩

theorem prefix_truncated {l : List Char} (h : l <+: u ++ TRUNCATED) (hl : '…' ∉ l) : l <+: u := by
  refine prefix_left h ?_
  rintro c ⟨⟩
  exact hl

theorem canary_truncated (h : _CANARY.Free none (u ++ x)) :
    _CANARY.Free none (u ++ TRUNCATED) := by
  intro us vs m hcs hm
  obtain ⟨u', rfl, rfl⟩ := exists_of_cut (run_none_of_bars canary_fold <| truncated_bars _ (.head _)) hcs hm
  have htrunc : TRUNCATED = '…' :: "[TRUNCATED]".toList := rfl
  rw [htrunc] at hm
  have hnone := @canary_reach_foreign u' x "[TRUNCATED]".toList '…' (by decide) (by decide)
    h.run_append
  cases hnone.symm.trans hm

theorem provider_token_truncated_iff (hpy : Lawful py)
    (h : (_PROVIDER_TOKEN py).Free none (u ++ x)) :
    (_PROVIDER_TOKEN py).Free none (u ++ TRUNCATED) ↔ ¬ EndsInToken py u := by
  have hmark : TRUNCATED.head?.any py.isname = false := hpy.ellipsis.right
  constructor
  case mp  =>
    rintro hfree ⟨us, w, rfl, hb, hw, hlong, hname⟩
    have hends : boundary py w.getLast? TRUNCATED.head? := by
      rw [boundary, hmark, hname]
      rfl
    have hnone := hfree.run_append
    rw [List.append_assoc] at hnone
    refine provider_token_ne_none ?_ ⟨hw, hlong, hends⟩ hnone
    rwa [last, Option.or_none]
  case mpr =>
    intro hends us vs m hcs hm
    obtain ⟨u', rfl, rfl⟩ := exists_of_cut
      (run_none_of_bars provider_token_fold <| truncated_bars _ (.head _)) hcs hm
    obtain ⟨w, t, rfl, hsplit, hb, hw, -⟩ := provider_token_some hm
    have hforeign : '…' ∉ TOKEN ++ w := by
      intro hmem
      rcases List.mem_append.mp hmem with hmem | hmem
      · exact absurd hmem (by decide)
      · exact absurd (hw.all _ hmem) (by decide)
    obtain ⟨z, rfl⟩ := prefix_truncated ⟨t, hsplit.symm⟩ hforeign
    rw [List.append_assoc] at hsplit
    obtain rfl := List.append_cancel_left hsplit
    cases z with
    | nil      =>
      refine hends ⟨us, w, by rw [List.append_nil], ?_, hw.all, hw.long, ?_⟩
      · rwa [last, Option.or_none] at hb
      · have hend := hw.ends
        rw [List.nil_append, boundary, hmark] at hend
        simpa using hend
    | cons d z =>
      have hnone := h.run_append
      rw [List.append_assoc, List.append_assoc] at hnone
      have htoken : Token py w (d :: z ++ x) := ⟨hw.all, hw.long, hw.ends⟩
      exact provider_token_ne_none hb htoken hnone

theorem bearer_truncated (hpy : Lawful py) (h : (_BEARER py).Free none (u ++ x)) :
    (_BEARER py).Free none (u ++ TRUNCATED) := by
  intro us vs m hcs hm
  obtain ⟨u', rfl, rfl⟩ := exists_of_cut
    (run_none_of_bars bearer_starts <| truncated_bars _ (.tail _ (.head _))) hcs hm
  obtain ⟨b, ws, v, t, rfl, hsplit, hb, hbearer, hws, hspace, hv, hrun⟩ := bearer_some hm
  have hforeign : '…' ∉ b ++ ws := by
    intro hmem
    rcases List.mem_append.mp hmem with hmem | hmem
    · exact absurd (bearer_isAlpha hbearer _ hmem) (by decide)
    · have hs := hspace.all _ hmem
      rw [hpy.ellipsis.left] at hs
      cases hs
  have hprefix : b ++ ws <+: u' ++ TRUNCATED := ⟨v ++ t, by rw [hsplit]; simp only [List.append_assoc]⟩
  obtain ⟨z, rfl⟩ := prefix_truncated hprefix hforeign
  obtain ⟨c, v, rfl⟩ := List.exists_cons_of_ne_nil hv
  simp only [List.append_assoc] at hsplit
  have htail := List.append_cancel_left <| List.append_cancel_left hsplit
  cases z with
  | nil      =>
    obtain ⟨rfl, -⟩ := List.cons.inj htail
    exact absurd (hrun.all '…' (List.mem_cons_self ..)) (by decide)
  | cons d z =>
    obtain ⟨rfl, -⟩ := List.cons.inj htail
    have hnone := h.run_append
    rw [List.append_assoc, List.append_assoc] at hnone
    exact @bearer_ne_none py _ (z ++ x) b ws d hb hbearer hws ⟨hspace.all, hspace.stop⟩
      (hrun.all d (List.mem_cons_self ..)) hnone

theorem truncated_values (hpy : Lawful py) : ∀ c ∈ TRUNCATED, valueChar py c := by
  have hchars : TRUNCATED = ['…', '[', 'T', 'R', 'U', 'N', 'C', 'A', 'T', 'E', 'D', ']'] := by
    decide
  rw [hchars]
  simpa [valueChar, Python.isspace] using hpy.ellipsis.left

theorem value_of_all {f : Char → Bool} {v t w : List Char} (h : Run f v t) (hw : ∀ c ∈ w, f c)
    (he : w = v ++ t) : v = w := by
  rw [← h.takeWhile_eq, ← he, List.takeWhile_eq_self_iff.mpr hw]

theorem secret_truncated (hpy : Lawful py) (h : (_ASSIGNED_SECRET py).Only Marked none (u ++ x)) :
    (_ASSIGNED_SECRET py).Only (Harmless py) none (u ++ TRUNCATED) := by
  intro us vs m hcs hm
  obtain ⟨u', rfl, rfl⟩ := exists_of_cut secret_run_none hcs hm
  obtain ⟨k, s, rfl, hk, -, hb, rest, hrest, hs⟩ := secret_some hm
  obtain ⟨s₁, e, s₂, v, t, rfl, rfl, h₁, he, h₂, hv, hrun⟩ := assignment_some hs
  have hforeign : '…' ∉ k ++ (s₁ ++ e :: s₂) := by
    have hspace {ws : List Char} (hws : ∀ c ∈ ws, py.isspace c) : '…' ∉ ws := by
      intro hmem
      have htrue := hws _ hmem
      rw [hpy.ellipsis.left] at htrue
      cases htrue
    have hkey : '…' ∉ k := by
      have hwords : ∀ w ∈ KEYWORDS, '…' ∉ w := by decide
      exact fun hmem => hwords _ hk (List.mem_map_of_mem (f := fold) hmem)
    have hsign : '…' ≠ e := by
      rintro rfl
      exact absurd he (by decide)
    simp [hkey, hspace h₁.all, hspace h₂.all, hsign]
  have hprefix : k ++ (s₁ ++ e :: s₂) <+: u' ++ TRUNCATED :=
    ⟨v ++ t, by rw [hrest]; simp only [List.append_assoc, List.cons_append]⟩
  obtain ⟨z, rfl⟩ := prefix_truncated hprefix hforeign
  simp only [List.append_assoc, List.cons_append] at hrest
  have hvalue := (List.cons.inj <| List.append_cancel_left <|
    List.append_cancel_left hrest).right
  replace hvalue : z ++ TRUNCATED = v ++ t := List.append_cancel_left hvalue
  refine ⟨k, s₁, e, s₂, v, rfl, hk, ?_, he, ?_⟩
  · intro c hc
    rcases List.mem_append.mp hc with hc | hc
    · exact h₁.all c hc
    · exact h₂.all c hc
  cases z with
  | nil      =>
    exact .inr ⟨[], List.nil_prefix, value_of_all hrun (truncated_values hpy) hvalue⟩
  | cons d z =>
    obtain ⟨d', v, rfl⟩ := List.exists_cons_of_ne_nil hv
    obtain ⟨rfl, -⟩ := List.cons.inj hvalue
    -- What is cut off goes on with the assignment, so that it has a match in the whole text.
    have hne := secret_ne_none hk hb <| @assignment_ne_none py (z ++ x) s₁ s₂ e d h₁ he
      ⟨h₂.all, h₂.stop⟩ (hrun.all d (List.mem_cons_self ..))
    obtain ⟨m, hm⟩ := Option.ne_none_iff_exists'.mp hne
    have hmarked := h us _ m (by simp) hm
    obtain ⟨t', hmt, hm'⟩ := Pattern.exists_match (p := _ASSIGNED_SECRET py) hm
    obtain ⟨k', hk', rfl⟩ := hmarked
    have hstop := secret_stop hm'
    have hkey : keyword (k ++ (s₁ ++ e :: (s₂ ++ d :: (z ++ x)))) = some k := keyword_append hk
    rw [hmt, List.append_assoc, keyword_append hk'] at hkey
    cases hkey
    rw [List.append_assoc] at hmt
    obtain ⟨rfl, rfl, rfl, hredacted⟩ :=
      redacted_split h₁.all h₂.all (List.append_cancel_left hmt).symm
    rw [← List.cons_append] at hredacted
    by_cases hcut : d :: z <+: REDACTED
    case pos =>
      have hall : ∀ c ∈ d :: z ++ TRUNCATED, valueChar py c := by
        intro c hc
        rcases List.mem_append.mp hc with hc | hc
        · exact redacted_values c <| hcut.subset hc
        · exact truncated_values hpy c hc
      exact .inr ⟨d :: z, hcut, value_of_all hrun hall hvalue⟩
    case neg =>
      rcases List.append_eq_append_iff.mp hredacted with ⟨w, hz, rfl⟩ | ⟨w, hz, -⟩
      case inr => exact absurd ⟨w, hz.symm⟩ hcut
      cases w with
      | nil      => exact absurd (by rw [hz, List.append_nil]) hcut
      | cons c w =>
        have hvalues : Run (valueChar py) REDACTED (c :: w ++ TRUNCATED) := ⟨redacted_values, hstop⟩
        rw [hz, List.append_assoc] at hvalue
        left
        rw [← hrun.takeWhile_eq, ← hvalue, hvalues.takeWhile_eq]

theorem safe_truncated_iff (hpy : Lawful py) (h : Replaced py (u ++ x)) :
    Safe py (u ++ TRUNCATED) ↔ ¬ EndsInToken py u := by
  rw [← provider_token_truncated_iff hpy h.provider_token]
  exact ⟨Safe.provider_token, fun hfree =>
    ⟨canary_truncated h.canary, hfree, bearer_truncated hpy h.bearer, secret_truncated hpy h.secret⟩⟩

theorem getD_replace {p : Pattern Char} {repl : List Char → List Char} {s : String} :
    ((replace p repl s).getD s).toList = p.sub repl none s.toList := by
  unfold replace
  by_cases h : p.search none s.toList
  · rw [if_pos h, Option.getD_some, String.toList_ofList]
  · rw [if_neg h, Option.getD_none, (Pattern.free_of_search (eq_false_of_ne_true h)).sub]

theorem takeBytes_prefix {n : ℕ} : takeBytes n cs <+: cs := by
  induction cs generalizing n with
  | nil          => exact List.prefix_refl _
  | cons c cs ih =>
    unfold takeBytes
    split
    · exact (List.prefix_append_right_inj [c]).mpr ih
    · exact List.nil_prefix

-- What is kept of a replaced text that is longer than the limit, or none where it is not.
def cut (n : ℕ) (cs : List Char) : Option (List Char) :=
  if (String.ofList cs).utf8ByteSize > n then
    some <| takeBytes (n - (String.ofList TRUNCATED).utf8ByteSize) cs
  else none

theorem clean_toList {n : ℕ} {s : String} : ((patterns py).clean n s).toList =
    ((cut n (replaced py s.toList)).map (· ++ TRUNCATED)).getD (replaced py s.toList) := by
  have hreplaced : ((patterns py).replaced s).toList = replaced py s.toList := by
    simp only [Patterns.replaced, patterns, getD_replace]
    rfl
  rw [Patterns.clean, Patterns.clean_text_eq, cut, ← hreplaced, String.ofList_toList]
  have hmark : String.ofList TRUNCATED = "…[TRUNCATED]" := rfl
  split
  · rw [Option.map_some, Option.getD_some, String.toList_append, String.toList_ofList, hmark]
    rfl
  · rw [Option.map_none, Option.getD_none]

theorem mark_bars : ∀ w ∈ TOKEN :: BEARER :: KEYWORDS, Bars w REDACTED := by
  decide

theorem free_of_bars {p : Pattern Char} {w R : List Char}
    (hp : ∀ {b cs m}, p.run b cs = some m → w <+: cs.map fold) (hR : Bars w R) : p.Free none R := by
  intro us vs m hsplit hm
  cases vs with
  | nil       =>
    rw [Pattern.run_nil] at hm
    cases hm
  | cons c vs =>
    rw [run_none_of_bars hp hR us (c :: vs) hsplit (List.cons_ne_nil c vs)] at hm
    cases hm

theorem mark_safe : Safe py REDACTED where
  canary         := free_of_bars canary_fold <| mark_bars _ (.head _)
  provider_token := free_of_bars provider_token_fold <| mark_bars _ (.head _)
  bearer         := free_of_bars bearer_starts <| mark_bars _ (.tail _ (.head _))
  secret         := by
    intro us vs m hsplit hm
    obtain ⟨w, hw, hprefix⟩ := secret_starts hm
    cases vs with
    | nil       =>
      rw [Pattern.run_nil] at hm
      cases hm
    | cons c vs =>
      rw [← List.append_nil (c :: vs)] at hprefix
      have hbars := mark_bars w (.tail _ (.tail _ hw))
      exact (hbars.not_starts hsplit (List.cons_ne_nil c vs) hprefix).elim

-- What is kept of a text is safe, unless it is cut where a token of a provider goes on.
theorem clean_safe_iff (hpy : Lawful py) {n : ℕ} {s : String} :
    Safe py ((patterns py).clean n s).toList ↔
      ∀ u ∈ cut n (replaced py s.toList), ¬ EndsInToken py u := by
  have hspec : Replaced py (replaced py s.toList) := replaced_spec hpy
  rw [clean_toList]
  cases hcut : cut n (replaced py s.toList) with
  | none   => exact ⟨fun _ _ h => (Option.not_mem_none _ h).elim, fun _ => hspec.safe⟩
  | some u =>
    have hu : u <+: replaced py s.toList := by
      unfold cut at hcut
      split at hcut
      · cases hcut
        exact takeBytes_prefix
      · cases hcut
    obtain ⟨x, hx⟩ := hu
    rw [← hx] at hspec
    rw [Option.map_some, Option.getD_some, safe_truncated_iff hpy hspec]
    exact ⟨fun h v hv => Option.mem_some.mp hv ▸ h, fun h => h u rfl⟩

end

-- What a document must not hold once it is redacted.
structure Hides (py : Python) (j : Json) : Prop where
  texts  : ∀ s, Occurs s j → Safe py s.toList
  fields : ∀ k v, HasField k v j → _SENSITIVE_KEY k → v = .str "[REDACTED]"

-- The long s is the only letter beyond ASCII.
def letters : Python :=
  { Python.ascii with alnum := (· = 'ſ') }

theorem lawful_letters : Lawful letters where
  space {c} h := by
    by_cases hc : c.val < 128
    · rw [Python.isspace, if_pos hc] at h
      have hspaces : [' ', '\t', '\n', '\r', '\x0b', '\x0c', '\x1c', '\x1d', '\x1e', '\x1f'].all
          fun d => !letters.isname d := by
        decide +kernel
      simpa using List.all_eq_true.mp hspaces c (of_decide_eq_true h)
    · rw [Python.isspace, if_neg hc] at h
      cases h
  long_s      := by decide
  ellipsis    := by decide

theorem Harmless.last (h : Harmless py m) : m.getLast? = some ']' := by
  obtain ⟨k, s₁, e, s₂, v, rfl, -, -, -, hv⟩ := h
  have hlast : v.getLast? = some ']' := by
    rcases hv with rfl | ⟨x, -, rfl⟩
    · decide
    · rw [List.getLast?_append]
      rfl
  simp [List.getLast?_append, List.getLast?_cons, hlast]

-- A token of a provider with a letter behind it that is no letter of the token.
def followed : String :=
  "sk-aaaaaaaaaaaaaaaſ, which is no token."

theorem replaced_followed : replaced letters followed.toList = followed.toList := by
  have hcanary : _CANARY.search none followed.toList = false := by decide +kernel
  have htoken : (_PROVIDER_TOKEN letters).search none followed.toList = false := by decide +kernel
  have hbearer : (_BEARER letters).search none followed.toList = false := by decide +kernel
  have hsecret : (_ASSIGNED_SECRET letters).search none followed.toList = false := by decide +kernel
  unfold replaced
  dsimp only
  rw [(Pattern.free_of_search hcanary).sub, (Pattern.free_of_search htoken).sub,
    (Pattern.free_of_search hbearer).sub, (Pattern.free_of_search hsecret).sub]

end Redaction
