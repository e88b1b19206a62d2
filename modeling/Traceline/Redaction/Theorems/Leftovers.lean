import Traceline.Redaction.Patterns

-- What matches of the patterns the replacements leave, one after the other.
namespace Redaction

open Substitution

section Lists

variable {α : Type} {l u x y : List α}

-- What starts a text that goes on with something foreign to it, starts the text before that.
theorem prefix_left (h : l <+: u ++ y) (hy : ∀ c ∈ y.head?, c ∉ l) : l <+: u := by
  cases List.prefix_or_prefix_of_prefix h (List.prefix_append u y) with
  | inl hl => exact hl
  | inr hu =>
    obtain ⟨z, rfl⟩ := hu
    have hz := (List.prefix_append_right_inj u).mp h
    cases z with
    | nil      => rw [List.append_nil]
    | cons c z =>
      obtain ⟨t, rfl⟩ := hz
      exact absurd (List.mem_append_right u (List.mem_cons_self ..)) (hy c rfl)

-- No part of a text that something else may follow starts with the word, folded.
def Bars (w R : List Char) : Prop :=
  ∀ vs ∈ (R.map fold).tails, vs ≠ [] → ¬ w <+: vs ∧ ¬ vs <+: w

instance (w R : List Char) : Decidable (Bars w R) :=
  inferInstanceAs (Decidable (∀ vs ∈ (R.map fold).tails, vs ≠ [] → ¬ w <+: vs ∧ ¬ vs <+: w))

theorem Bars.not_starts {w R us vs rest : List Char} (h : Bars w R) (hR : R = us ++ vs)
    (hvs : vs ≠ []) : ¬ w <+: (vs ++ rest).map fold := by
  intro hw
  have hmem : vs.map fold ∈ (R.map fold).tails := by
    rw [List.mem_tails, hR, List.map_append]
    exact List.suffix_append _ _
  obtain ⟨hleft, hright⟩ := h _ hmem (by simpa using hvs)
  rw [List.map_append] at hw
  cases List.prefix_or_prefix_of_prefix hw (List.prefix_append _ _) with
  | inl hl => exact hleft hl
  | inr hr => exact hright hr

end Lists

-- What holds of Python's characters: whitespace is not of a word, the long s is, and the ellipsis
-- is neither.
structure Lawful (py : Python) : Prop where
  space    : ∀ {c}, py.isspace c → py.isname c = false
  long_s   : py.isname 'ſ'
  ellipsis : py.isspace '…' = false ∧ py.isname '…' = false

section Characters

variable {py : Python} {c : Char}

theorem fold_cases (c : Char) : (c = 'İ' ∨ c = 'ı') ∧ fold c = 'i' ∨ c = 'ſ' ∧ fold c = 's' ∨
    c = '\u212a' ∧ fold c = 'k' ∨ fold c = c.toLower := by
  unfold fold
  split
  · exact .inl ⟨‹_›, rfl⟩
  · split
    · exact .inr <| .inl ⟨‹_›, rfl⟩
    · split
      · exact .inr <| .inr <| .inl ⟨‹_›, rfl⟩
      · exact .inr <| .inr <| .inr rfl

theorem isUpper_iff : c.isUpper ↔ 'A'.val ≤ c.val ∧ c.val ≤ 'Z'.val :=
  decide_eq_true_iff

theorem isLower_iff : c.isLower ↔ 'a'.val ≤ c.val ∧ c.val ≤ 'z'.val :=
  (Bool.and_eq_true_iff).trans <| and_congr decide_eq_true_iff decide_eq_true_iff

theorem isAlpha_iff : c.isAlpha ↔ c.isUpper ∨ c.isLower :=
  Bool.or_eq_true_iff

theorem isAlpha_of_toLower (h : c.toLower.isAlpha) : c.isAlpha := by
  by_cases hu : c.isUpper
  · exact isAlpha_iff.mpr <| .inl hu
  · unfold Char.toLower at h
    split at h
    case isTrue hc  => exact absurd (isUpper_iff.mpr hc) hu
    case isFalse    => exact h

-- The letters of `Bearer` and the last ones of the keywords are lower or upper case letters.
theorem isAlpha_of_fold (h : (fold c).isAlpha) (hc : fold c ∉ ['i', 's', 'k']) : c.isAlpha := by
  rcases fold_cases c with ⟨-, he⟩ | ⟨-, he⟩ | ⟨-, he⟩ | he
  · simp [he] at hc
  · simp [he] at hc
  · simp [he] at hc
  · exact isAlpha_of_toLower (he ▸ h)

theorem val_lt_of_isAlphanum (h : c.isAlphanum) : c.val < 128 := by
  simp only [Char.isAlphanum, isAlpha_iff, isUpper_iff, isLower_iff, Char.isDigit,
    Bool.or_eq_true, Bool.and_eq_true, decide_eq_true_eq, ge_iff_le, UInt32.le_iff_toNat_le] at h
  rw [UInt32.lt_iff_toNat_lt]
  simp at h ⊢
  omega

theorem isspace_of_isAlphanum (h : c.isAlphanum) : py.isspace c = false := by
  rw [Python.isspace, if_pos (val_lt_of_isAlphanum h)]
  refine decide_eq_false fun hc => ?_
  simp only [List.mem_cons, List.not_mem_nil, or_false] at hc
  rcases hc with rfl | rfl | rfl | rfl | rfl | rfl | rfl | rfl | rfl | rfl <;>
    exact absurd h (by decide)

theorem isname_of_isAlphanum (h : c.isAlphanum) : py.isname c := by
  rw [Python.isname, Python.isalnum, if_pos (val_lt_of_isAlphanum h), h, Bool.true_or]

theorem isspace_of_fold (hpy : Lawful py) (h : (fold c).isAlpha) (hc : fold c ∉ ['i', 'k']) :
    py.isspace c = false := by
  rcases fold_cases c with ⟨-, he⟩ | ⟨rfl, -⟩ | ⟨-, he⟩ | he
  · simp [he] at hc
  · cases hs : py.isspace 'ſ' with
    | false => rfl
    | true  =>
      have hname := hpy.space hs
      rw [hpy.long_s] at hname
      cases hname
  · simp [he] at hc
  · have halpha := isAlpha_of_toLower (he ▸ h)
    exact isspace_of_isAlphanum <| by rw [Char.isAlphanum, halpha, Bool.true_or]

theorem isname_of_isAlpha (h : c.isAlpha) : py.isname c :=
  isname_of_isAlphanum <| by rw [Char.isAlphanum, h, Bool.true_or]

end Characters

section Starts

variable {py : Python} {a : Option Char} {cs m t : List Char}

theorem canary_starts (h : canary_match cs = some m) : TOKEN <+: cs := by
  obtain ⟨v, t, rfl, rfl, -⟩ := canary_some h
  have hc : TOKEN <+: CANARY := by decide
  exact hc.trans <| (List.prefix_append _ _).trans (List.prefix_append _ _)

theorem provider_token_starts (h : provider_token_match py a cs = some m) : TOKEN <+: cs := by
  obtain ⟨w, t, rfl, rfl, -⟩ := provider_token_some h
  exact (List.prefix_append _ _).trans (List.prefix_append _ _)

theorem bearer_starts (h : bearer_match py a cs = some m) : BEARER <+: cs.map fold := by
  obtain ⟨b, ws, v, t, rfl, rfl, -, hb, -⟩ := bearer_some h
  rw [List.append_assoc, List.map_append, hb]
  exact List.prefix_append _ _

theorem secret_starts (h : secret_match py a cs = some m) :
    ∃ w ∈ KEYWORDS, w <+: cs.map fold := by
  obtain ⟨k, s, rfl, hk, -, -, rest, rfl, -⟩ := secret_some h
  exact ⟨_, hk, by rw [List.map_append]; exact List.prefix_append _ _⟩

theorem token_starts_fold (h : TOKEN <+: cs) : TOKEN <+: cs.map fold := by
  obtain ⟨t, rfl⟩ := h
  rw [List.map_append]
  exact List.prefix_append _ _

theorem canary_behind (h : _CANARY.run a (m ++ t) = some m) : ¬ TOKEN <+: t := by
  obtain ⟨v, t', hm, hcs, -, hv⟩ := canary_some h
  obtain rfl := List.append_cancel_left hcs
  rintro ⟨z, rfl⟩
  exact absurd (hv.stop 's' rfl) (by decide)

-- Behind a token of a provider all characters of the class go on with a word, or none is left.
theorem provider_token_behind (h : (_PROVIDER_TOKEN py).run a (m ++ t) = some m) :
    ¬ TOKEN <+: t := by
  obtain ⟨w, t', rfl, hcs, -, hw, hmax⟩ := provider_token_some h
  obtain rfl := List.append_cancel_left hcs
  rintro ⟨z, rfl⟩
  have hlonger : Token py (w ++ ['s', 'k']) ('-' :: z) := by
    refine ⟨fun c hc => ?_, by rw [List.length_append]; exact Nat.le_add_right_of_le hw.long, ?_⟩
    · rcases List.mem_append.mp hc with hc | hc
      · exact hw.all c hc
      · simp only [List.mem_cons, List.not_mem_nil, or_false] at hc
        rcases hc with rfl | rfl <;> decide
    · rw [List.getLast?_append]
      rfl
  have hle := hmax (w ++ ['s', 'k']) ('-' :: z) (by simp [TOKEN]) hlonger
  rw [List.length_append] at hle
  exact absurd hle (by simp)

theorem bearer_behind (h : (_BEARER py).run a (m ++ t) = some m) :
    ¬ TOKEN <+: t ∧ ¬ BEARER <+: t.map fold := by
  obtain ⟨b, ws, v, t', hm, hcs, -, -, -, -, -, hv⟩ := bearer_some h
  obtain rfl := List.append_cancel_left hcs
  constructor
  · rintro ⟨z, rfl⟩
    exact absurd (hv.stop 's' rfl) (by decide)
  · intro hb
    cases t with
    | nil      => exact absurd hb (by decide)
    | cons c t =>
      have hc : fold c = 'b' := by
        obtain ⟨z, hz⟩ := hb
        exact (List.cons.inj hz).left.symm
      have hstop := hv.stop c rfl
      rw [bearerChar, hc, Bool.or_eq_false_iff] at hstop
      exact absurd hstop.left (by decide)

-- No value goes on behind an assignment.
theorem secret_stop (h : (_ASSIGNED_SECRET py).run a (m ++ t) = some m) :
    ∀ c ∈ t.head?, valueChar py c = false := by
  obtain ⟨k, s, rfl, -, -, -, rest, hcs, hs⟩ := secret_some h
  obtain ⟨s₁, e, s₂, v, t', rfl, rfl, -, -, -, -, hv⟩ := assignment_some hs
  rw [List.append_assoc] at hcs
  obtain rfl := List.append_cancel_left <| List.append_cancel_left hcs
  exact hv.stop

theorem secret_behind (hpy : Lawful py) (h : (_ASSIGNED_SECRET py).run a (m ++ t) = some m) :
    ¬ TOKEN <+: t ∧ ¬ BEARER <+: t.map fold ∧ ∀ w ∈ KEYWORDS, ¬ w <+: t.map fold := by
  have hstop := secret_stop h
  have hfold {w : List Char} {l : Char} (hw : w.head? = some l) (hl : l ∈ ['b', 'a', 'p', 's']) :
      ¬ w <+: t.map fold := by
    rintro ⟨z, hz⟩
    cases w with
    | nil      => cases hw
    | cons d w =>
      cases hw
      cases t with
      | nil      => cases hz
      | cons c t =>
        have hc : fold c = l := (List.cons.inj hz).left.symm
        have hspace : py.isspace c = false := by
          apply isspace_of_fold hpy
          · rw [hc]
            simp only [List.mem_cons, List.not_mem_nil, or_false] at hl
            rcases hl with rfl | rfl | rfl | rfl <;> decide
          · rw [hc]
            simp only [List.mem_cons, List.not_mem_nil, or_false] at hl
            rcases hl with rfl | rfl | rfl | rfl <;> decide
        have hvalue := hstop c rfl
        rw [valueChar, hspace] at hvalue
        have hmark : ¬ c = ',' → c = ';' := by simpa using hvalue
        have hcs : c ∈ [',', ';'] := by simpa [Classical.or_iff_not_imp_left] using hmark
        rw [← hc] at hl
        simp only [List.mem_cons, List.not_mem_nil, or_false] at hcs
        rcases hcs with rfl | rfl <;> exact absurd hl (by decide)
  refine ⟨fun ht => ?_, hfold rfl (by decide), fun w hw => ?_⟩
  · exact hfold (w := TOKEN) rfl (by decide) (token_starts_fold ht)
  · have hheads : ∀ w ∈ KEYWORDS, ∃ l ∈ ['b', 'a', 'p', 's'], w.head? = some l := by
      simp [KEYWORDS]
    obtain ⟨l, hl, hwl⟩ := hheads w hw
    exact hfold hwl hl

end Starts

section Reach

variable {py : Python} {a : Option Char} {u x y m t rest : List Char}

theorem eq_none_of_ne {α : Type} {o o' : Option α} (h : o = none) (hne : ∀ m, o' = some m → o ≠ none) :
    o' = none := by
  cases ho : o' with
  | none   => rfl
  | some m => exact absurd h (hne m ho)

theorem canary_reach (hy : ∀ c ∈ y.head?, c ∉ CANARY)
    (hxy : ∀ c ∈ y.head?, tokenChar c → ∃ d ∈ x.head?, tokenChar d)
    (h : canary_match (u ++ x) = none) : canary_match (u ++ y) = none := by
  refine eq_none_of_ne h fun m hm => ?_
  obtain ⟨v, t, rfl, hcs, hv, hrun⟩ := canary_some hm
  rw [List.append_assoc] at hcs
  obtain ⟨z, rfl⟩ := prefix_left ⟨_, hcs.symm⟩ hy
  rw [List.append_assoc] at hcs ⊢
  have hzy := List.append_cancel_left hcs
  cases v with
  | nil      => exact absurd rfl hv
  | cons c v =>
    have hc := hrun.all c (List.mem_cons_self ..)
    cases z with
    | cons d z =>
      obtain ⟨rfl, -⟩ := List.cons.inj hzy
      exact canary_ne_none hc
    | nil      =>
      obtain ⟨d, hd, htoken⟩ := hxy c (by rw [← List.nil_append y, hzy]; rfl) hc
      obtain ⟨x, rfl⟩ := List.head?_eq_some_iff.mp hd
      exact canary_ne_none htoken

theorem canary_reach_foreign {c : Char} (hc : c ∉ CANARY) (htoken : tokenChar c = false)
    (h : canary_match (u ++ x) = none) : canary_match (u ++ c :: y) = none := by
  refine canary_reach (fun d hd => ?_) (fun d hd htrue => ?_) h
  · cases hd
    exact hc
  · cases hd
    rw [htoken] at htrue
    cases htrue

theorem provider_token_reach (hy : ∀ c ∈ y.head?, c ∉ TOKEN ∧ tokenChar c = false)
    (hxy : ∀ c ∈ u.getLast?, boundary py (some c) y.head? → boundary py (some c) x.head?)
    (h : provider_token_match py a (u ++ x) = none) :
    provider_token_match py a (u ++ y) = none := by
  refine eq_none_of_ne h fun m hm => ?_
  obtain ⟨w, t, rfl, hcs, ha, hw, -⟩ := provider_token_some hm
  have hforeign : ∀ c ∈ y.head?, c ∉ TOKEN ++ w := by
    intro c hc hmem
    rcases List.mem_append.mp hmem with hmem | hmem
    · exact (hy c hc).left hmem
    · have hfalse := (hy c hc).right
      rw [hw.all c hmem] at hfalse
      cases hfalse
  obtain ⟨z, rfl⟩ := prefix_left ⟨_, hcs.symm⟩ hforeign
  rw [List.append_assoc] at hcs ⊢
  have hzy := List.append_cancel_left hcs
  rw [List.append_assoc]
  refine provider_token_ne_none ha ⟨hw.all, hw.long, ?_⟩
  have hends := hw.ends
  cases z with
  | cons d z =>
    rw [← hzy] at hends
    exact hends
  | nil      =>
    rw [List.nil_append] at hzy ⊢
    have hne : w ≠ [] := by
      rintro rfl
      exact absurd hw.long (by decide)
    obtain ⟨c, hc⟩ := List.getLast?_isSome.mpr hne |> Option.isSome_iff_exists.mp
    rw [← hzy, hc] at hends
    rw [hc]
    refine hxy c ?_ hends
    rw [List.append_nil, List.getLast?_append, hc]
    rfl

theorem bearer_isAlpha {b : List Char} (hb : b.map fold = BEARER) : ∀ c ∈ b, c.isAlpha := by
  intro c hc
  have hmem : fold c ∈ BEARER := hb ▸ List.mem_map_of_mem hc
  have hletters : ∀ l ∈ BEARER, l.isAlpha ∧ l ∉ ['i', 's', 'k'] := by
    simp [BEARER]
  exact isAlpha_of_fold (hletters _ hmem).left (hletters _ hmem).right

theorem tokenChar_of_isAlpha {c : Char} (h : c.isAlpha) : tokenChar c := by
  rw [tokenChar, Char.isAlphanum, h, Bool.true_or, Bool.true_or]

-- A token is not bounded within a word.
theorem boundary_isAlpha {c d : Char} (hc : c.isAlpha) (hd : d.isAlpha) :
    boundary py (some c) (some d) = false := by
  rw [boundary, Option.any_some, Option.any_some, isname_of_isAlpha hc, isname_of_isAlpha hd]
  rfl

theorem boundary_name {c d : Char} {o : Option Char} (hc : py.isname c) (hd : py.isname d) :
    boundary py o (some c) = boundary py o (some d) := by
  rw [boundary, boundary, Option.any_some, Option.any_some, hc, hd]

theorem provider_token_reach_bearer (hpy : Lawful py) {b ws : List Char}
    (hb : b.map fold = BEARER) (hws : ws ≠ []) (hspace : ∀ c ∈ ws, py.isspace c)
    (h : provider_token_match py a (u ++ (b ++ (ws ++ x))) = none) :
    provider_token_match py a (u ++ ("Bearer".toList ++ (' ' :: y))) = none := by
  refine eq_none_of_ne h fun m hm => ?_
  obtain ⟨w, t, rfl, hcs, ha, hw, -⟩ := provider_token_some hm
  have hword : ∀ c ∈ "Bearer".toList, c.isAlpha := by simp
  have halpha := bearer_isAlpha hb
  obtain ⟨l, b', hlb⟩ : ∃ l b', b = l :: b' := List.exists_cons_of_ne_nil <| by
    rintro rfl
    cases hb
  have hwne : w ≠ [] := by
    rintro rfl
    exact absurd hw.long (by decide)
  have htoken : TOKEN <+: u := by
    rw [List.append_assoc] at hcs
    refine prefix_left ⟨_, hcs.symm⟩ ?_
    rintro c ⟨⟩
    decide
  obtain ⟨u, rfl⟩ := htoken
  rw [List.append_assoc, List.append_assoc] at hcs
  rw [List.append_assoc]
  replace hcs := List.append_cancel_left hcs
  obtain ⟨c, hc⟩ := Option.isSome_iff_exists.mp <| List.getLast?_isSome.mpr hwne
  have hends := hw.ends
  rw [hc] at hends
  have hfirst : boundary py (some c) (b ++ (ws ++ x)).head? = boundary py (some c) (some 'B') := by
    rw [hlb]
    exact boundary_name (isname_of_isAlpha (halpha l (hlb ▸ List.mem_cons_self ..))) rfl
  -- The token ends before the word, within it or with it.
  rcases List.append_eq_append_iff.mp hcs with ⟨z, rfl, hz⟩ | ⟨z, rfl, rfl⟩
  case inr =>
    rw [List.append_assoc]
    refine provider_token_ne_none ha ⟨hw.all, hw.long, ?_⟩
    rw [hc]
    cases z with
    | cons d z => exact hends
    | nil      =>
      rw [List.nil_append, hfirst]
      exact hends
  case inl =>
    have hle : z <+: "Bearer".toList := by
      refine prefix_left ⟨t, hz.symm⟩ ?_
      rintro c ⟨⟩ hmem
      exact absurd (hw.all ' ' (List.mem_append_right _ hmem)) (by decide)
    obtain ⟨z', hz'⟩ := hle
    rw [← hz', List.append_assoc] at hz
    have ht : z' ++ ' ' :: y = t := List.append_cancel_left hz
    by_cases hne : z = []
    case pos =>
      subst hne
      rw [List.append_nil] at hw hc
      refine provider_token_ne_none ha ⟨hw.all, hw.long, ?_⟩
      rw [List.nil_append] at hz'
      rw [← ht, hz'] at hends
      rw [hc, hfirst]
      exact hends
    case neg =>
      have hcz : c ∈ "Bearer".toList := by
        rw [List.getLast?_append_of_ne_nil _ hne] at hc
        exact hz' ▸ List.mem_append_left _ (List.mem_of_getLast? hc)
      cases z' with
      | cons d z' =>
        rw [← ht, List.cons_append, List.head?_cons, boundary_isAlpha (hword c hcz)
          (hword d (hz' ▸ by simp))] at hends
        cases hends
      | nil       =>
        rw [List.append_nil] at hz'
        subst hz'
        have hlen : b.length = "Bearer".toList.length := by
          rw [← List.length_map fold, hb]
          rfl
        have htoken : Token py (u ++ b) (ws ++ x) := by
          refine ⟨fun d hd => ?_, ?_, ?_⟩
          · rcases List.mem_append.mp hd with hd | hd
            · exact hw.all d (List.mem_append_left _ hd)
            · exact tokenChar_of_isAlpha (halpha d hd)
          · have hlong := hw.long
            rwa [List.length_append, ← hlen, ← List.length_append] at hlong
          · have hbne : b ≠ [] := hlb ▸ List.cons_ne_nil _ _
            obtain ⟨d, hd⟩ := Option.isSome_iff_exists.mp <| List.getLast?_isSome.mpr hbne
            obtain ⟨e, ws, rfl⟩ := List.exists_cons_of_ne_nil hws
            rw [List.getLast?_append, hd, List.cons_append, List.head?_cons, boundary,
              Option.some_or, Option.any_some, Option.any_some,
              isname_of_isAlpha (halpha d (List.mem_of_getLast? hd)),
              hpy.space (hspace e (List.mem_cons_self ..))]
            rfl
        simpa only [List.append_assoc] using provider_token_ne_none ha htoken

theorem bearer_reach_secret {c : Char} (hc : u.getLast? = some c) (halpha : c.isAlpha)
    (h : bearer_match py a (u ++ x) = none) : bearer_match py a (u ++ '=' :: y) = none := by
  refine eq_none_of_ne h fun m hm => ?_
  obtain ⟨b, ws, v, t, rfl, hcs, ha, hb, hws, hspace, hv, hrun⟩ := bearer_some hm
  have hforeign : '=' ∉ b ++ ws := by
    intro hmem
    rcases List.mem_append.mp hmem with hmem | hmem
    · exact absurd (bearer_isAlpha hb _ hmem) (by decide)
    · exact absurd (hspace.all _ hmem) (by simp [Python.isspace])
  have hprefix : b ++ ws <+: u := by
    refine prefix_left (y := '=' :: y) ⟨v ++ t, ?_⟩ ?_
    · rw [hcs]
      simp only [List.append_assoc]
    · rintro c ⟨⟩
      exact hforeign
  obtain ⟨z, rfl⟩ := hprefix
  cases z with
  | nil      =>
    rw [List.append_nil, List.getLast?_append_of_ne_nil _ hws] at hc
    have hs := hspace.all c (List.mem_of_getLast? hc)
    rw [isspace_of_isAlphanum (by rw [Char.isAlphanum, halpha, Bool.true_or])] at hs
    cases hs
  | cons d z =>
    obtain ⟨e, v, rfl⟩ := List.exists_cons_of_ne_nil hv
    simp only [List.append_assoc, List.cons_append] at hcs ⊢
    obtain ⟨rfl, -⟩ := List.cons.inj <| List.append_cancel_left <| List.append_cancel_left hcs
    exact bearer_ne_none ha hb hws ⟨hspace.all, hspace.stop⟩ (hrun.all d (List.mem_cons_self ..))

theorem bearer_reach_bearer {b' : List Char} (hu : u ≠ []) (hb' : b'.map fold = BEARER)
    (h : bearer_match py a (u ++ (b' ++ x)) = none) :
    bearer_match py a (u ++ ("Bearer".toList ++ y)) = none := by
  refine eq_none_of_ne h fun m hm => ?_
  obtain ⟨b, ws, v, t, rfl, hcs, ha, hb, hws, hspace, hv, hrun⟩ := bearer_some hm
  obtain ⟨l, u, rfl⟩ := List.exists_cons_of_ne_nil hu
  cases b with
  | nil       => cases hb
  | cons l' b =>
    obtain ⟨hl, hb₁⟩ := List.cons.inj (show fold l' :: b.map fold = 'b' :: "earer".toList from hb)
    simp only [List.cons_append, List.append_assoc] at hcs
    obtain ⟨rfl, htl⟩ := List.cons.inj hcs
    have hforeign : 'B' ∉ b ++ ws := by
      intro hmem
      rcases List.mem_append.mp hmem with hmem | hmem
      · have hfold : fold 'B' ∈ "earer".toList := hb₁ ▸ List.mem_map_of_mem hmem
        exact absurd hfold (by decide)
      · exact absurd (hspace.all _ hmem) (by simp [Python.isspace])
    have hprefix : b ++ ws <+: u := by
      refine prefix_left (y := "Bearer".toList ++ y) ⟨v ++ t, ?_⟩ ?_
      · rw [List.append_assoc, htl]
      · rintro c ⟨⟩
        exact hforeign
    obtain ⟨z, rfl⟩ := hprefix
    obtain ⟨e, v, rfl⟩ := List.exists_cons_of_ne_nil hv
    simp only [List.append_assoc, List.cons_append] at htl ⊢
    have htail := List.append_cancel_left <| List.append_cancel_left htl
    cases z with
    | cons d z =>
      obtain ⟨rfl, -⟩ := List.cons.inj htail
      exact @bearer_ne_none py a _ (l :: b) ws d ha hb hws ⟨hspace.all, hspace.stop⟩
        (hrun.all d (List.mem_cons_self ..))
    | nil      =>
      cases b' with
      | nil       => cases hb'
      | cons d b' =>
        have hd : fold d = 'b' := (List.cons.inj hb').left
        have hspaced : py.isspace d = false := by
          have halpha := bearer_isAlpha hb' d (List.mem_cons_self ..)
          exact isspace_of_isAlphanum <| by rw [Char.isAlphanum, halpha, Bool.true_or]
        refine @bearer_ne_none py a _ (l :: b) ws d ha hb hws ⟨hspace.all, ?_⟩ ?_
        · rintro c ⟨⟩
          exact hspaced
        · rw [bearerChar, hd]
          rfl

theorem keyword_last {k : List Char} (h : k.map fold ∈ KEYWORDS) :
    ∃ c, k.getLast? = some c ∧ c.isAlpha := by
  have hlast : ∀ w ∈ KEYWORDS, ∃ l, w.getLast? = some l ∧ l.isAlpha ∧ l ∉ ['i', 's', 'k'] := by
    simp [KEYWORDS]
  obtain ⟨l, hl, halpha, hl'⟩ := hlast _ h
  obtain ⟨c, hc⟩ := Option.isSome_iff_exists.mp <| List.getLast?_isSome.mpr (keyword_ne_nil h)
  rw [List.getLast?_map, hc] at hl
  cases hl
  exact ⟨c, hc, isAlpha_of_fold halpha hl'⟩

-- What ends in a letter ends neither in whitespace nor in the sign of an assignment.
theorem not_isspace_of_last {c : Char} {ws : List Char} (hc : (u ++ ws).getLast? = some c)
    (halpha : c.isAlpha) (hspace : ∀ d ∈ ws, py.isspace d) : ws = [] := by
  by_contra hne
  rw [List.getLast?_append_of_ne_nil _ hne] at hc
  have hs := hspace c (List.mem_of_getLast? hc)
  rw [isspace_of_isAlphanum (by rw [Char.isAlphanum, halpha, Bool.true_or])] at hs
  cases hs

theorem secret_reach {k s : List Char} (hk : k.map fold ∈ KEYWORDS)
    (hs : assignment_match py x = some s) (h : secret_match py a (u ++ (k ++ x)) = none) :
    secret_match py a (u ++ (k ++ '=' :: y)) = none := by
  refine eq_none_of_ne h fun m hm => ?_
  obtain ⟨k', s', rfl, hk', -, ha, rest, hcs, hs'⟩ := secret_some hm
  obtain ⟨s₁, e, s₂, v, t, rfl, rfl, h₁, he, h₂, hv, hrun⟩ := assignment_some hs'
  obtain ⟨c, hc, halpha⟩ := keyword_last hk
  have hlast : (u ++ k).getLast? = some c := by
    rw [List.getLast?_append_of_ne_nil _ (keyword_ne_nil hk), hc]
  rw [← List.append_assoc] at hcs ⊢
  generalize u ++ k = w at hcs hlast ⊢
  have hforeign {ws : List Char} (hws : ∀ d ∈ ws, py.isspace d) : '=' ∉ ws := fun hmem =>
    absurd (hws _ hmem) (by simp [Python.isspace])
  have hforeign' : '=' ∉ k' ++ s₁ := by
    intro hmem
    rcases List.mem_append.mp hmem with hmem | hmem
    · have hkeyword : ∀ w ∈ KEYWORDS, '=' ∉ w := by decide
      exact hkeyword _ hk' (List.mem_map_of_mem (f := fold) hmem)
    · exact hforeign h₁.all hmem
  have hprefix : k' ++ s₁ <+: w := by
    refine prefix_left (y := '=' :: y) ⟨e :: (s₂ ++ v) ++ t, ?_⟩ ?_
    · rw [hcs]
      simp only [List.append_assoc]
    · rintro c ⟨⟩
      exact hforeign'
  obtain ⟨z, rfl⟩ := hprefix
  simp only [List.append_assoc, List.cons_append] at hcs ⊢
  have htail := List.append_cancel_left <| List.append_cancel_left hcs
  cases z with
  | nil      =>
    rw [List.append_nil] at hlast
    obtain rfl := not_isspace_of_last hlast halpha h₁.all
    exact secret_ne_none hk' ha (hs ▸ Option.some_ne_none _)
  | cons d z =>
    obtain ⟨rfl, hvalue⟩ := List.cons.inj htail
    have hprefix : s₂ <+: z := by
      refine prefix_left ⟨_, hvalue.symm⟩ ?_
      rintro c ⟨⟩
      exact hforeign h₂.all
    obtain ⟨z, rfl⟩ := hprefix
    obtain ⟨d', v, rfl⟩ := List.exists_cons_of_ne_nil hv
    simp only [List.append_assoc, List.cons_append] at hvalue ⊢
    cases z with
    | nil       =>
      rw [List.append_nil, List.append_cons] at hlast
      obtain rfl := not_isspace_of_last hlast halpha h₂.all
      rw [List.append_nil, List.getLast?_append, List.getLast?_singleton] at hlast
      cases hlast
      simp only [List.mem_cons, List.not_mem_nil, or_false] at he
      rcases he with rfl | rfl <;> exact absurd halpha (by decide)
    | cons f z =>
      have hnext : s₂ ++ (f :: z ++ '=' :: y) = s₂ ++ d' :: (v ++ t) :=
        (List.append_assoc ..).symm.trans hvalue
      obtain ⟨rfl, -⟩ := List.cons.inj <| List.append_cancel_left hnext
      exact secret_ne_none hk' ha <| assignment_ne_none h₁ he ⟨h₂.all, h₂.stop⟩ <|
        hrun.all f (List.mem_cons_self ..)

end Reach

section Keeps

variable {py : Python} {a : Option Char} {m t : List Char}

-- A match of an assigned secret that is what the replacement writes.
def Marked (m : List Char) : Prop :=
  ∃ k : List Char, k.map fold ∈ KEYWORDS ∧ m = k ++ "=[REDACTED]".toList

theorem redacted_bars : ∀ R ∈ [REDACTED, "Bearer [REDACTED]".toList], Bars TOKEN R := by
  decide

theorem secret_bars {k : List Char} (hk : k.map fold ∈ KEYWORDS) :
    Bars TOKEN (k ++ "=[REDACTED]".toList) ∧ Bars BEARER (k ++ "=[REDACTED]".toList) := by
  have hwords : ∀ w ∈ KEYWORDS, ∀ vs ∈ (w ++ "=[REDACTED]".toList.map fold).tails, vs ≠ [] →
      (¬ TOKEN <+: vs ∧ ¬ vs <+: TOKEN) ∧ ¬ BEARER <+: vs ∧ ¬ vs <+: BEARER := by
    decide
  unfold Bars
  rw [List.map_append]
  exact ⟨fun vs hvs hne => (hwords _ hk vs hvs hne).left,
    fun vs hvs hne => (hwords _ hk vs hvs hne).right⟩

theorem secret_match_split (h : (_ASSIGNED_SECRET py).run a (m ++ t) = some m) :
    ∃ k s, m = k ++ s ∧ k.map fold ∈ KEYWORDS ∧ assignment_match py (s ++ t) = some s ∧
      secret_repl m = k ++ "=[REDACTED]".toList := by
  obtain ⟨k, s, rfl, hk, hkey, -, rest, hcs, hs⟩ := secret_some h
  rw [List.append_assoc] at hcs
  obtain rfl := List.append_cancel_left hcs
  exact ⟨k, s, rfl, hk, hs, by rw [secret_repl, hkey]; rfl⟩

-- A pattern that starts like a token does not start within a replaced match.
theorem within_of_bars {p : Pattern Char} {w R us vs rest m' : List Char} {b : Option Char}
    (hp : ∀ {b cs m}, p.run b cs = some m → w <+: cs.map fold) (hR : Bars w R)
    (hsplit : R = us ++ vs) (hvs : vs ≠ []) : p.run b (vs ++ rest) ≠ some m' :=
  fun h => hR.not_starts hsplit hvs (hp h)

theorem canary_fold {b : Option Char} {cs m : List Char} (h : _CANARY.run b cs = some m) :
    TOKEN <+: cs.map fold :=
  token_starts_fold <| canary_starts h

theorem provider_token_fold {b : Option Char} {cs m : List Char}
    (h : (_PROVIDER_TOKEN py).run b cs = some m) : TOKEN <+: cs.map fold :=
  token_starts_fold <| provider_token_starts h

theorem canary_run_none (ht : ¬ TOKEN <+: t) : _CANARY.run a t = none :=
  eq_none_of_ne rfl fun _ h => (ht <| canary_starts h).elim

theorem provider_token_run_none (ht : ¬ TOKEN <+: t) : (_PROVIDER_TOKEN py).run a t = none :=
  eq_none_of_ne rfl fun _ h => (ht <| provider_token_starts h).elim

theorem bearer_run_none (ht : ¬ BEARER <+: t.map fold) : (_BEARER py).run a t = none :=
  eq_none_of_ne rfl fun _ h => (ht <| bearer_starts h).elim

-- Up to what follows its keyword, an assigned secret is kept.
theorem secret_before {u k s : List Char} : u ++ (k ++ s ++ t) = (u ++ k) ++ (s ++ t) := by
  simp

theorem secret_after {u k rest : List Char} :
    u ++ (k ++ "=[REDACTED]".toList ++ rest) = (u ++ k) ++ '=' :: (REDACTED ++ rest) := by
  have hfirst : "=[REDACTED]".toList ++ rest = '=' :: (REDACTED ++ rest) := rfl
  rw [List.append_assoc, List.append_assoc, hfirst]

theorem canary_reach_redacted {u x rest : List Char} (h : canary_match (u ++ x) = none) :
    canary_match (u ++ (REDACTED ++ rest)) = none := by
  have hfirst : REDACTED ++ rest = '[' :: ("REDACTED]".toList ++ rest) := rfl
  rw [hfirst]
  exact canary_reach_foreign (by decide) (by decide) h

theorem canary_keeps_canary : _CANARY.Keeps _CANARY (fun _ => REDACTED) fun _ => False where
  reach _ _ h       := canary_reach_redacted h
  within _ hR hvs h := within_of_bars canary_fold (redacted_bars _ (.head _)) hR hvs h
  behind h          := canary_run_none <| canary_behind h

theorem canary_keeps_provider_token :
    _CANARY.Keeps (_PROVIDER_TOKEN py) (fun _ => REDACTED) fun _ => False where
  reach _ _ h       := canary_reach_redacted h
  within _ hR hvs h := within_of_bars canary_fold (redacted_bars _ (.head _)) hR hvs h
  behind h          := canary_run_none <| provider_token_behind h

theorem provider_token_keeps_provider_token :
    (_PROVIDER_TOKEN py).Keeps (_PROVIDER_TOKEN py) (fun _ => REDACTED) fun _ => False where
  within _ hR hvs h := within_of_bars provider_token_fold (redacted_bars _ (.head _)) hR hvs h
  behind h          := provider_token_run_none <| provider_token_behind h
  reach {a us m t rest} hus hq h := by
    refine provider_token_reach (by rintro c ⟨⟩; decide) (fun c hc _ => ?_) h
    obtain ⟨w, t', rfl, -, hb, -⟩ := provider_token_some hq
    rwa [last, Option.mem_def.mp hc] at hb

theorem canary_keeps_bearer : _CANARY.Keeps (_BEARER py) bearer_repl fun _ => False where
  within _ hR hvs h := within_of_bars canary_fold (redacted_bars _ (.tail _ (.head _))) hR hvs h
  behind h          := canary_run_none (bearer_behind h).left
  reach {a us m t rest} _ hq h := by
    refine canary_reach (by rintro c ⟨⟩; decide) (fun c _ _ => ?_) h
    obtain ⟨b, ws, v, t', rfl, -, -, hb, -⟩ := bearer_some hq
    cases b with
    | nil      => cases hb
    | cons d b =>
      exact ⟨d, rfl, tokenChar_of_isAlpha <| bearer_isAlpha hb d (List.mem_cons_self ..)⟩

theorem provider_token_keeps_bearer (hpy : Lawful py) :
    (_PROVIDER_TOKEN py).Keeps (_BEARER py) bearer_repl fun _ => False where
  within _ hR hvs h := within_of_bars provider_token_fold (redacted_bars _ (.tail _ (.head _))) hR hvs h
  behind h          := provider_token_run_none (bearer_behind h).left
  reach {a us m t rest} _ hq h := by
    obtain ⟨b, ws, v, t', rfl, -, -, hb, hws, hspace, -⟩ := bearer_some hq
    rw [List.append_assoc, List.append_assoc] at h
    exact provider_token_reach_bearer hpy hb hws hspace.all h

theorem bearer_tail_bars : Bars BEARER "earer [REDACTED]".toList := by
  decide

-- The token of a replaced match does not match.
theorem bearer_repl_none {rest m' : List Char} :
    (_BEARER py).run a (bearer_repl m ++ rest) ≠ some m' := by
  intro h
  obtain ⟨b, ws, v, t', rfl, hcs, -, hb, hws, hspace, hv, hrun⟩ := bearer_some h
  have hrepl : bearer_repl m ++ rest =
      "Bearer".toList ++ ' ' :: '[' :: ("REDACTED]".toList ++ rest) := rfl
  have hlen : "Bearer".toList.length = b.length := by
    have hlen := congrArg List.length hb
    rw [List.length_map] at hlen
    exact hlen.symm
  rw [hrepl, List.append_assoc, List.append_assoc] at hcs
  have htail := (List.append_inj hcs hlen).right
  obtain ⟨c, ws, rfl⟩ := List.exists_cons_of_ne_nil hws
  obtain ⟨d, v, rfl⟩ := List.exists_cons_of_ne_nil hv
  have hnext := (List.cons.inj htail).right
  cases ws with
  | nil       =>
    obtain ⟨rfl, -⟩ := List.cons.inj hnext
    exact absurd (hrun.all '[' (List.mem_cons_self ..)) (by decide)
  | cons e ws =>
    obtain ⟨rfl, -⟩ := List.cons.inj hnext
    have hs := hspace.all '[' (by simp)
    exact absurd hs (by simp [Python.isspace])

theorem bearer_keeps_bearer : (_BEARER py).Keeps (_BEARER py) bearer_repl fun _ => False where
  behind h := bearer_run_none (bearer_behind h).right
  reach {a us m t rest} hus hq h := by
    obtain ⟨b, ws, v, t', rfl, -, -, hb, -⟩ := bearer_some hq
    rw [List.append_assoc] at h
    exact bearer_reach_bearer hus hb h
  within {a b us vs m t m'} _ hR hvs h := by
    cases us with
    | cons c us =>
      obtain ⟨-, htail⟩ := List.cons.inj hR
      exact within_of_bars bearer_starts bearer_tail_bars htail hvs h
    | nil       =>
      rw [List.nil_append] at hR
      rw [← hR] at h
      exact bearer_repl_none h

theorem canary_keeps_secret (hpy : Lawful py) :
    _CANARY.Keeps (_ASSIGNED_SECRET py) secret_repl fun _ => False where
  behind h := canary_run_none (secret_behind hpy h).left
  within {a b us vs m t m'} hq hR hvs h := by
    obtain ⟨k, s, rfl, hk, -, hrepl⟩ := secret_match_split hq
    rw [hrepl] at hR
    exact within_of_bars canary_fold (secret_bars hk).left hR hvs h
  reach {a us m t rest} _ hq h := by
    obtain ⟨k, s, rfl, hk, -, hrepl⟩ := secret_match_split hq
    rw [secret_before] at h
    rw [hrepl, secret_after]
    exact canary_reach_foreign (by decide) (by decide) h

theorem provider_token_keeps_secret (hpy : Lawful py) :
    (_PROVIDER_TOKEN py).Keeps (_ASSIGNED_SECRET py) secret_repl fun _ => False where
  behind h := provider_token_run_none (secret_behind hpy h).left
  within {a b us vs m t m'} hq hR hvs h := by
    obtain ⟨k, s, rfl, hk, -, hrepl⟩ := secret_match_split hq
    rw [hrepl] at hR
    exact within_of_bars provider_token_fold (secret_bars hk).left hR hvs h
  reach {a us m t rest} _ hq h := by
    obtain ⟨k, s, rfl, hk, hs, hrepl⟩ := secret_match_split hq
    rw [secret_before] at h
    rw [hrepl, secret_after]
    refine provider_token_reach (by rintro c ⟨⟩; decide) (fun c _ hc => ?_) h
    obtain ⟨s₁, e, s₂, v, t', rfl, -, h₁, he, -⟩ := assignment_some hs
    have hname : ∃ d, (s₁ ++ e :: (s₂ ++ v) ++ t).head? = some d ∧ py.isname d = false := by
      cases s₁ with
      | cons d s₁ => exact ⟨d, rfl, hpy.space (h₁.all d (List.mem_cons_self ..))⟩
      | nil       =>
        refine ⟨e, rfl, ?_⟩
        simp only [List.mem_cons, List.not_mem_nil, or_false] at he
        rcases he with rfl | rfl <;> rfl
    obtain ⟨d, hd, hd'⟩ := hname
    rw [hd, boundary, Option.any_some, Option.any_some, hd']
    exact hc

theorem bearer_keeps_secret (hpy : Lawful py) :
    (_BEARER py).Keeps (_ASSIGNED_SECRET py) secret_repl fun _ => False where
  behind h := bearer_run_none (secret_behind hpy h).right.left
  within {a b us vs m t m'} hq hR hvs h := by
    obtain ⟨k, s, rfl, hk, -, hrepl⟩ := secret_match_split hq
    rw [hrepl] at hR
    exact within_of_bars bearer_starts (secret_bars hk).right hR hvs h
  reach {a us m t rest} _ hq h := by
    obtain ⟨k, s, rfl, hk, -, hrepl⟩ := secret_match_split hq
    obtain ⟨c, hc, halpha⟩ := keyword_last hk
    rw [secret_before] at h
    rw [hrepl, secret_after]
    refine bearer_reach_secret ?_ halpha h
    rw [List.getLast?_append_of_ne_nil _ (keyword_ne_nil hk), hc]

-- No keyword starts within another one or what is written behind it.
theorem secret_tail_bars {c : Char} {k : List Char} (hk : (c :: k).map fold ∈ KEYWORDS) :
    ∀ w ∈ KEYWORDS, Bars w (k ++ "=[REDACTED]".toList) := by
  have hwords : ∀ w' ∈ KEYWORDS, ∀ w ∈ KEYWORDS,
      ∀ vs ∈ (w'.tail ++ "=[REDACTED]".toList.map fold).tails, vs ≠ [] →
        ¬ w <+: vs ∧ ¬ vs <+: w := by
    decide +kernel
  intro w hw
  unfold Bars
  rw [List.map_append]
  exact hwords _ hk w hw

theorem redacted_values : ∀ c ∈ REDACTED, valueChar py c := by
  have hchars : REDACTED = ['[', 'R', 'E', 'D', 'A', 'C', 'T', 'E', 'D', ']'] := by decide
  rw [hchars]
  simp [valueChar, Python.isspace]

-- An assignment that starts with the mark of a redaction has it for its value.
theorem redacted_split {s₁ s₂ w t : List Char} {e : Char} (h₁ : ∀ c ∈ s₁, py.isspace c)
    (h₂ : ∀ c ∈ s₂, py.isspace c) (h : "=[REDACTED]".toList ++ t = s₁ ++ e :: (s₂ ++ w)) :
    s₁ = [] ∧ e = '=' ∧ s₂ = [] ∧ REDACTED ++ t = w := by
  have hfirst : "=[REDACTED]".toList ++ t = '=' :: (REDACTED ++ t) := rfl
  rw [hfirst] at h
  cases s₁ with
  | cons c s₁ =>
    obtain ⟨rfl, -⟩ := List.cons.inj h
    exact absurd (h₁ '=' (List.mem_cons_self ..)) (by simp [Python.isspace])
  | nil       =>
    obtain ⟨rfl, hvalues⟩ := List.cons.inj h
    cases s₂ with
    | cons c s₂ =>
      obtain ⟨rfl, -⟩ := List.cons.inj hvalues
      exact absurd (h₂ '[' (List.mem_cons_self ..)) (by simp [Python.isspace])
    | nil       => exact ⟨rfl, rfl, rfl, hvalues⟩

theorem secret_repl_match {b : Option Char} {k rest m' : List Char} (hk : k.map fold ∈ KEYWORDS)
    (hrest : ∀ c ∈ rest.head?, valueChar py c = false)
    (h : (_ASSIGNED_SECRET py).run b (k ++ ("=[REDACTED]".toList ++ rest)) = some m') :
    m' = k ++ "=[REDACTED]".toList := by
  obtain ⟨k', s', rfl, hk', -, -, rest', hcs, hs'⟩ := secret_some h
  have hkey : keyword (k' ++ rest') = some k' := keyword_append hk'
  rw [← hcs, keyword_append hk] at hkey
  cases hkey
  rw [← List.append_cancel_left hcs] at hs'
  obtain ⟨s₁, e, s₂, v, t', rfl, hcs', h₁, he, h₂, hv, hrun⟩ := assignment_some hs'
  rw [List.append_assoc, List.cons_append, List.append_assoc] at hcs'
  obtain ⟨rfl, rfl, rfl, hvalues⟩ := redacted_split h₁.all h₂.all hcs'
  have hredacted : Run (valueChar py) REDACTED rest := ⟨redacted_values, hrest⟩
  have hvalue : v = REDACTED := by
    rw [← hrun.takeWhile_eq, ← hvalues, hredacted.takeWhile_eq]
  rw [hvalue]
  rfl

-- What follows a replaced secret is what followed the secret.
theorem secret_sub_stop (hpy : Lawful py) (h : (_ASSIGNED_SECRET py).run a (m ++ t) = some m) :
    ∀ c ∈ ((_ASSIGNED_SECRET py).sub secret_repl (last a m) t).head?, valueChar py c = false := by
  have hstop := secret_stop h
  cases t with
  | nil      =>
    rw [Pattern.sub]
    exact hstop
  | cons d t =>
    rw [Pattern.sub_of_none ?_]
    · exact hstop
    · refine eq_none_of_ne rfl fun _ h' => ?_
      obtain ⟨w, hw, hprefix⟩ := secret_starts h'
      exact ((secret_behind hpy h).right.right w hw hprefix).elim

theorem secret_keeps_secret (hpy : Lawful py) :
    (_ASSIGNED_SECRET py).Keeps (_ASSIGNED_SECRET py) secret_repl Marked where
  behind h := eq_none_of_ne rfl fun _ h' => by
    obtain ⟨w, hw, hprefix⟩ := secret_starts h'
    exact ((secret_behind hpy h).right.right w hw hprefix).elim
  reach {a us m t rest} _ hq h := by
    obtain ⟨k, s, rfl, hk, hs, hrepl⟩ := secret_match_split hq
    rw [List.append_assoc] at h
    rw [hrepl, List.append_assoc]
    exact secret_reach hk hs h
  within {a b us vs m t m'} hq hR hvs h := by
    obtain ⟨k, s, rfl, hk, -, hrepl⟩ := secret_match_split hq
    rw [hrepl] at hR
    cases us with
    | nil       =>
      rw [List.nil_append] at hR
      rw [← hR, List.append_assoc] at h
      exact ⟨k, hk, secret_repl_match hk (secret_sub_stop hpy hq) h⟩
    | cons c us =>
      obtain ⟨d, k, rfl⟩ := List.exists_cons_of_ne_nil (keyword_ne_nil hk)
      obtain ⟨-, htail⟩ := List.cons.inj hR
      obtain ⟨w, hw, hprefix⟩ := secret_starts h
      exact ((secret_tail_bars hk w hw).not_starts htail hvs hprefix).elim

end Keeps

end Redaction
