import Mathlib.Data.List.TakeWhile
import Traceline.Library.Substitution
import Traceline.Redaction
import Traceline.Text

-- The patterns of the redaction, as they are compiled.
namespace Redaction

open Substitution

-- What a letter of a pattern is compared with where the case is ignored: the lower case of a
-- letter, which for three letters is shared by ones beyond ASCII.
def fold (c : Char) : Char :=
  if c = 'İ' ∨ c = 'ı' then 'i'
  else if c = 'ſ' then 's'
  else if c = '\u212a' then 'k'
  else c.toLower

-- `[A-Za-z0-9_-]`
def tokenChar (c : Char) : Bool :=
  c.isAlphanum || c ∈ ['_', '-']

-- `[A-Za-z0-9._~+/=-]`, where the case is ignored.
def bearerChar (c : Char) : Bool :=
  (fold c).isAlphanum || c ∈ ['.', '_', '~', '+', '/', '=', '-']

def CANARY : List Char :=
  "sk-test-do-not-persist-".toList

def TOKEN : List Char :=
  ['s', 'k', '-']

def BEARER : List Char :=
  "bearer".toList

-- The alternatives of `api[_-]?key|access[_-]?token|password|secret`, in the order they are tried.
def KEYWORDS : List (List Char) :=
  ["api_key".toList, "api-key".toList, "apikey".toList, "access_token".toList,
    "access-token".toList, "accesstoken".toList, "password".toList, "secret".toList]

def REDACTED : List Char :=
  "[REDACTED]".toList

section

variable (py : Python)

-- `[^\s,;]`
def valueChar (c : Char) : Bool :=
  !py.isspace c && c ∉ [',', ';']

-- `\b`, between what comes before a position and what comes after it.
def boundary (a b : Option Char) : Bool :=
  a.any py.isname != b.any py.isname

-- `sk-test-do-not-persist-[A-Za-z0-9_-]+`
def canary_match (cs : List Char) : Option (List Char) :=
  let token := (cs.drop CANARY.length).takeWhile tokenChar
  if CANARY <+: cs ∧ token ≠ [] then some (CANARY ++ token) else none

-- The length of the longest match of `[A-Za-z0-9_-]{12,}\b` in a run of that many characters.
def backtrack (cs : List Char) : ℕ → Option ℕ
  | 0     => none
  | n + 1 =>
    if n + 1 < 12 then none
    else if boundary py cs[n]? cs[n + 1]? then some (n + 1)
    else backtrack cs n

-- `\bsk-[A-Za-z0-9_-]{12,}\b`
def provider_token_match (a : Option Char) (cs : List Char) : Option (List Char) :=
  let rest := cs.drop TOKEN.length
  if boundary py a cs.head? ∧ TOKEN <+: cs then
    (backtrack py rest (rest.takeWhile tokenChar).length).map fun n => TOKEN ++ rest.take n
  else none

-- `\bBearer\s+[A-Za-z0-9._~+/=-]+`. No character is in both of the classes.
def bearer_match (a : Option Char) (cs : List Char) : Option (List Char) :=
  let rest := cs.drop BEARER.length
  let spaces := rest.takeWhile py.isspace
  let token := (rest.dropWhile py.isspace).takeWhile bearerChar
  if boundary py a cs.head? ∧ BEARER <+: cs.map fold ∧ spaces ≠ [] ∧ token ≠ [] then
    some (cs.take BEARER.length ++ (spaces ++ token))
  else none

-- `group(1)`
def keyword (cs : List Char) : Option (List Char) :=
  (KEYWORDS.find? (· <+: cs.map fold)).map fun k => cs.take k.length

-- `\s*[:=]\s*[^\s,;]+`. No character is in two classes that follow each other.
def assignment_match (cs : List Char) : Option (List Char) :=
  match cs.dropWhile py.isspace with
  | []        => none
  | c :: rest =>
    let value := (rest.dropWhile py.isspace).takeWhile (valueChar py)
    if c ∈ [':', '='] ∧ value ≠ [] then
      some (cs.takeWhile py.isspace ++ c :: (rest.takeWhile py.isspace ++ value))
    else none

-- `\b(api[_-]?key|access[_-]?token|password|secret)\s*[:=]\s*[^\s,;]+`
def secret_match (a : Option Char) (cs : List Char) : Option (List Char) :=
  if boundary py a cs.head? then do
    let k ← keyword cs
    let assignment ← assignment_match py (cs.drop k.length)
    return k ++ assignment
  else none

end

-- Some characters of a class, which are followed by none of it.
structure Run (f : Char → Bool) (v t : List Char) : Prop where
  all  : ∀ c ∈ v, f c
  stop : ∀ c ∈ t.head?, f c = false

section

variable {py : Python} {f : Char → Bool} {a : Option Char} {cs m v t z : List Char}

theorem run_takeWhile (f : Char → Bool) (cs : List Char) :
    Run f (cs.takeWhile f) (cs.dropWhile f) where
  all _ h  := List.mem_takeWhile_imp h
  stop c h := by
    have hd := List.head?_dropWhile_not f cs
    rw [Option.mem_def.mp h] at hd
    simpa using hd

theorem Run.takeWhile_eq (h : Run f v t) : (v ++ t).takeWhile f = v := by
  rw [List.takeWhile_append_of_pos h.all]
  cases t with
  | nil      => exact List.append_nil v
  | cons c t => rw [List.takeWhile_cons, h.stop c rfl, if_neg Bool.false_ne_true, List.append_nil]

theorem Run.dropWhile_eq (h : Run f v t) : (v ++ t).dropWhile f = t := by
  rw [List.dropWhile_append_of_pos h.all]
  cases t with
  | nil      => rfl
  | cons c t => rw [List.dropWhile_cons, h.stop c rfl, if_neg Bool.false_ne_true]

theorem takeWhile_ne_nil {c : Char} (h : f c) : (c :: cs).takeWhile f ≠ [] := by
  rw [List.takeWhile_cons, if_pos h]
  exact List.cons_ne_nil _ _

theorem canary_some (h : canary_match cs = some m) :
    ∃ v t, m = CANARY ++ v ∧ cs = m ++ t ∧ v ≠ [] ∧ Run tokenChar v t := by
  unfold canary_match at h
  dsimp only at h
  split at h
  case isFalse   => cases h
  case isTrue hc =>
    obtain ⟨⟨rest, rfl⟩, hne⟩ := hc
    rw [List.drop_left] at h hne
    cases h
    refine ⟨_, rest.dropWhile tokenChar, rfl, ?_, hne, run_takeWhile _ _⟩
    rw [List.append_assoc, List.takeWhile_append_dropWhile]

theorem canary_ne_none {c : Char} (h : tokenChar c) : canary_match (CANARY ++ c :: cs) ≠ none := by
  unfold canary_match
  dsimp only
  rw [if_pos ⟨List.prefix_append _ _, by rw [List.drop_left]; exact takeWhile_ne_nil h⟩]
  exact Option.some_ne_none _

theorem backtrack_some {k n : ℕ} (h : backtrack py cs k = some n) :
    12 ≤ n ∧ n ≤ k ∧ boundary py cs[n - 1]? cs[n]? ∧
      ∀ j, n < j → j ≤ k → ¬ boundary py cs[j - 1]? cs[j]? := by
  induction k with
  | zero      => cases h
  | succ k ih =>
    unfold backtrack at h
    split at h
    case isTrue      => cases h
    case isFalse hlt =>
      split at h
      case isTrue hb  =>
        cases h
        exact ⟨Nat.le_of_not_lt hlt, le_rfl, hb, fun j hj hk => absurd hk (Nat.not_le_of_lt hj)⟩
      case isFalse hb =>
        obtain ⟨hle, hk, hbound, hmax⟩ := ih h
        refine ⟨hle, Nat.le_succ_of_le hk, hbound, fun j hj hjk => ?_⟩
        cases Nat.le_succ_iff.mp hjk with
        | inl hj' => exact hmax j hj hj'
        | inr he  => exact he ▸ hb

theorem backtrack_ne_none {k j : ℕ} (hj : 12 ≤ j) (hk : j ≤ k)
    (h : boundary py cs[j - 1]? cs[j]?) : backtrack py cs k ≠ none := by
  induction k with
  | zero      => omega
  | succ k ih =>
    unfold backtrack
    rw [if_neg (by omega)]
    split
    case isTrue     => exact Option.some_ne_none _
    case isFalse hb =>
      cases Nat.le_succ_iff.mp hk with
      | inl hk' => exact ih hk'
      | inr he  =>
        subst he
        exact absurd h hb

-- A token of a provider and what comes after it.
structure Token (py : Python) (w t : List Char) : Prop where
  all  : ∀ c ∈ w, tokenChar c
  long : 12 ≤ w.length
  ends : boundary py w.getLast? t.head?

theorem token_iff {n : ℕ} (hn : 12 ≤ n) (hlen : n ≤ cs.length) :
    boundary py (cs.take n).getLast? (cs.drop n).head? ↔ boundary py cs[n - 1]? cs[n]? := by
  have hlt : n - 1 < cs.length := by omega
  rw [List.getLast?_take, if_neg (by omega), List.head?_drop, List.getElem?_eq_getElem hlt]
  rfl

theorem provider_token_some (h : provider_token_match py a cs = some m) :
    ∃ w t, m = TOKEN ++ w ∧ cs = m ++ t ∧ boundary py a (some 's') ∧ Token py w t ∧
      ∀ w' t', cs = TOKEN ++ (w' ++ t') → Token py w' t' → w'.length ≤ w.length := by
  unfold provider_token_match at h
  dsimp only at h
  split at h
  case isFalse   => cases h
  case isTrue hc =>
    obtain ⟨hb, rest, rfl⟩ := hc
    rw [List.drop_left] at h
    obtain ⟨n, hn, rfl⟩ := Option.map_eq_some_iff.mp h
    obtain ⟨hle, hk, hbound, hmax⟩ := backtrack_some hn
    have hrest : (rest.takeWhile tokenChar).length ≤ rest.length :=
      (List.takeWhile_prefix _).length_le
    have hlen : (rest.take n).length = n := List.length_take_of_le (hk.trans hrest)
    refine ⟨rest.take n, rest.drop n, rfl, ?_, hb, ⟨fun c hc => ?_, hlen.symm ▸ hle, ?_⟩, ?_⟩
    · rw [List.append_assoc, List.take_append_drop]
    · have htake : rest.take n = (rest.takeWhile tokenChar).take n := by
        conv_lhs => rw [← List.takeWhile_append_dropWhile (p := tokenChar) (l := rest)]
        rw [List.take_append_of_le_length hk]
      rw [htake] at hc
      exact List.mem_takeWhile_imp (List.mem_of_mem_take hc)
    · rw [token_iff hle (hk.trans hrest)]
      exact hbound
    · intro w' t' he hw
      obtain rfl := List.append_cancel_left he
      rw [hlen]
      by_contra hlt
      have hle' : w'.length ≤ ((w' ++ t').takeWhile tokenChar).length := by
        rw [List.takeWhile_append_of_pos hw.all, List.length_append]
        omega
      have hend := (@token_iff py (w' ++ t') _ hw.long (by simp)).mp <| by
        rw [List.take_left, List.drop_left]
        exact hw.ends
      exact hmax _ (Nat.lt_of_not_le hlt) hle' hend

theorem provider_token_ne_none {w : List Char} (ha : boundary py a (some 's'))
    (h : Token py w t) : provider_token_match py a (TOKEN ++ (w ++ t)) ≠ none := by
  unfold provider_token_match
  dsimp only
  rw [if_pos ⟨ha, List.prefix_append _ _⟩, List.drop_left, Ne, Option.map_eq_none_iff]
  refine backtrack_ne_none h.long ?_ <| (token_iff h.long (by simp)).mp <| by
    rw [List.take_left, List.drop_left]
    exact h.ends
  rw [List.takeWhile_append_of_pos h.all, List.length_append]
  omega

theorem bearer_some (h : bearer_match py a cs = some m) :
    ∃ b ws v t, m = b ++ (ws ++ v) ∧ cs = m ++ t ∧ boundary py a b.head? ∧ b.map fold = BEARER ∧
      ws ≠ [] ∧ Run py.isspace ws (v ++ t) ∧ v ≠ [] ∧ Run bearerChar v t := by
  unfold bearer_match at h
  dsimp only at h
  split at h
  case isFalse   => cases h
  case isTrue hc =>
    obtain ⟨hb, hbearer, hws, hv⟩ := hc
    cases h
    have hrest := run_takeWhile py.isspace (cs.drop BEARER.length)
    rw [← List.takeWhile_append_dropWhile (p := bearerChar)
      (l := (cs.drop BEARER.length).dropWhile py.isspace)] at hrest
    refine ⟨cs.take BEARER.length, _, _, _, rfl, ?_, ?_, ?_, hws, hrest, hv, run_takeWhile _ _⟩
    · rw [List.append_assoc, List.append_assoc, List.takeWhile_append_dropWhile,
        List.takeWhile_append_dropWhile, List.take_append_drop]
    · rwa [List.head?_take, if_neg (by decide)]
    · rw [List.map_take, ← List.prefix_iff_eq_take.mp hbearer]

theorem bearer_ne_none {b ws : List Char} {c : Char} (ha : boundary py a b.head?)
    (hb : b.map fold = BEARER) (hws : ws ≠ []) (hspace : Run py.isspace ws (c :: cs))
    (hc : bearerChar c) : bearer_match py a (b ++ (ws ++ c :: cs)) ≠ none := by
  have hlen : b.length = BEARER.length := by rw [← hb, List.length_map]
  have hne : b ≠ [] := by
    rintro rfl
    cases hb
  have hdrop : (b ++ (ws ++ c :: cs)).drop BEARER.length = ws ++ c :: cs := by
    rw [← hlen, List.drop_left]
  have hhead : boundary py a (b ++ (ws ++ c :: cs)).head? := by
    rwa [List.head?_append_of_ne_nil _ hne]
  have hbearer : BEARER <+: (b ++ (ws ++ c :: cs)).map fold := by
    rw [List.map_append, hb]
    exact List.prefix_append _ _
  unfold bearer_match
  dsimp only
  rw [hdrop, hspace.takeWhile_eq, hspace.dropWhile_eq,
    if_pos ⟨hhead, hbearer, hws, takeWhile_ne_nil hc⟩]
  exact Option.some_ne_none _

theorem assignment_some (h : assignment_match py cs = some m) :
    ∃ s₁ e s₂ v t, m = s₁ ++ e :: (s₂ ++ v) ∧ cs = m ++ t ∧ Run py.isspace s₁ [e] ∧
      e ∈ [':', '='] ∧ Run py.isspace s₂ (v ++ t) ∧ v ≠ [] ∧ Run (valueChar py) v t := by
  have hrun := run_takeWhile py.isspace cs
  have hcs := List.takeWhile_append_dropWhile (p := py.isspace) (l := cs)
  unfold assignment_match at h
  cases hd : cs.dropWhile py.isspace with
  | nil         =>
    rw [hd] at h
    cases h
  | cons e rest =>
    rw [hd] at h hrun hcs
    dsimp only at h
    split at h
    case isFalse   => cases h
    case isTrue hc =>
      cases h
      have hrest := run_takeWhile py.isspace rest
      rw [← List.takeWhile_append_dropWhile (p := valueChar py)
        (l := rest.dropWhile py.isspace)] at hrest
      refine ⟨_, e, _, _, _, rfl, ?_, ⟨hrun.all, hrun.stop⟩, hc.left, hrest, hc.right,
        run_takeWhile _ _⟩
      rw [List.append_assoc, List.cons_append, List.append_assoc,
        List.takeWhile_append_dropWhile, List.takeWhile_append_dropWhile, hcs]

theorem assignment_ne_none {s₁ s₂ : List Char} {e c : Char} (h₁ : Run py.isspace s₁ [e])
    (he : e ∈ [':', '=']) (h₂ : Run py.isspace s₂ (c :: cs)) (hc : valueChar py c) :
    assignment_match py (s₁ ++ e :: (s₂ ++ c :: cs)) ≠ none := by
  have h₁' : Run py.isspace s₁ (e :: (s₂ ++ c :: cs)) := ⟨h₁.all, h₁.stop⟩
  unfold assignment_match
  rw [h₁'.dropWhile_eq]
  dsimp only
  rw [h₂.dropWhile_eq, if_pos ⟨he, takeWhile_ne_nil hc⟩]
  exact Option.some_ne_none _

theorem keyword_some {k : List Char} (h : keyword cs = some k) :
    k.map fold ∈ KEYWORDS ∧ k <+: cs := by
  obtain ⟨w, hw, rfl⟩ := Option.map_eq_some_iff.mp h
  have hprefix : w <+: cs.map fold := by simpa using List.find?_some hw
  rw [List.map_take, ← List.prefix_iff_eq_take.mp hprefix]
  exact ⟨List.mem_of_find?_eq_some hw, List.take_prefix _ _⟩

-- No keyword is the start of another one.
theorem keyword_append {k : List Char} (h : k.map fold ∈ KEYWORDS) :
    keyword (k ++ cs) = some k := by
  have huniq : ∀ w ∈ KEYWORDS, ∀ w' ∈ KEYWORDS, w <+: w' → w = w' := by decide
  have hprefix : k.map fold <+: (k ++ cs).map fold := by
    rw [List.map_append]
    exact List.prefix_append _ _
  cases hf : KEYWORDS.find? (· <+: (k ++ cs).map fold) with
  | none   => exact absurd hprefix <| by simpa using List.find?_eq_none.mp hf _ h
  | some w =>
    have hw : w <+: (k ++ cs).map fold := by simpa using List.find?_some hf
    have hwk : w = k.map fold := by
      rw [List.map_append] at hw
      cases List.prefix_or_prefix_of_prefix hw (List.prefix_append _ _) with
      | inl hle => exact huniq _ (List.mem_of_find?_eq_some hf) _ h hle
      | inr hle => exact (huniq _ h _ (List.mem_of_find?_eq_some hf) hle).symm
    rw [keyword, hf, Option.map_some, hwk, List.length_map, List.take_left]

theorem keyword_ne_nil {k : List Char} (h : k.map fold ∈ KEYWORDS) : k ≠ [] := by
  rintro rfl
  exact absurd h (by decide)

theorem secret_some (h : secret_match py a cs = some m) :
    ∃ k s, m = k ++ s ∧ k.map fold ∈ KEYWORDS ∧ keyword m = some k ∧ boundary py a k.head? ∧
      ∃ rest, cs = k ++ rest ∧ assignment_match py rest = some s := by
  unfold secret_match at h
  split at h
  case isFalse   => cases h
  case isTrue hb =>
    obtain ⟨k, hk, h⟩ := Option.bind_eq_some_iff.mp h
    obtain ⟨s, hs, h⟩ := Option.bind_eq_some_iff.mp h
    cases h
    obtain ⟨hmem, rest, rfl⟩ := keyword_some hk
    rw [List.drop_left] at hs
    refine ⟨k, s, rfl, hmem, keyword_append hmem, ?_, rest, rfl, hs⟩
    rwa [List.head?_append_of_ne_nil _ (keyword_ne_nil hmem)] at hb

theorem secret_ne_none {k : List Char} (hk : k.map fold ∈ KEYWORDS)
    (hb : boundary py a k.head?) (h : assignment_match py cs ≠ none) :
    secret_match py a (k ++ cs) ≠ none := by
  obtain ⟨s, hs⟩ := Option.ne_none_iff_exists'.mp h
  unfold secret_match
  rw [List.head?_append_of_ne_nil _ (keyword_ne_nil hk), if_pos hb, keyword_append hk]
  dsimp only [bind, Option.bind]
  rw [List.drop_left, hs]
  exact Option.some_ne_none _

end

section

variable (py : Python)

def _CANARY : Pattern Char where
  run _ cs       := canary_match cs
  run_prefix h   := by
    obtain ⟨v, t, -, hcs, -⟩ := canary_some h
    exact ⟨t, hcs.symm⟩
  run_ne_nil h   := by
    obtain ⟨v, t, rfl, -⟩ := canary_some h
    exact List.append_ne_nil_of_left_ne_nil (by decide) _

def _PROVIDER_TOKEN : Pattern Char where
  run a cs       := provider_token_match py a cs
  run_prefix h   := by
    obtain ⟨w, t, -, hcs, -⟩ := provider_token_some h
    exact ⟨t, hcs.symm⟩
  run_ne_nil h   := by
    obtain ⟨w, t, rfl, -⟩ := provider_token_some h
    exact List.append_ne_nil_of_left_ne_nil (by decide) _

def _BEARER : Pattern Char where
  run a cs       := bearer_match py a cs
  run_prefix h   := by
    obtain ⟨b, ws, v, t, -, hcs, -⟩ := bearer_some h
    exact ⟨t, hcs.symm⟩
  run_ne_nil h   := by
    obtain ⟨b, ws, v, t, rfl, -, -, -, hws, -⟩ := bearer_some h
    simp [hws]

def _ASSIGNED_SECRET : Pattern Char where
  run a cs       := secret_match py a cs
  run_prefix h   := by
    obtain ⟨k, s, rfl, -, -, -, rest, rfl, hs⟩ := secret_some h
    obtain ⟨s₁, e, s₂, v, t, -, hrest, -⟩ := assignment_some hs
    exact ⟨t, by rw [hrest, List.append_assoc]⟩
  run_ne_nil h   := by
    obtain ⟨k, s, rfl, hk, -⟩ := secret_some h
    exact List.append_ne_nil_of_left_ne_nil (keyword_ne_nil hk) _

-- `(?i)^(authorization|api[_-]?key|access[_-]?token|password|secret|credential|x-api-key)$`, which
-- a line feed may follow.
def _SENSITIVE_KEY (key : String) : Bool :=
  let names := KEYWORDS ++ ["authorization".toList, "credential".toList, "x-api-key".toList]
  let cs := key.toList.map fold
  cs ∈ names || cs.getLast? = some '\n' && cs.dropLast ∈ names

-- `pattern.sub` where `pattern.search` finds a match.
def replace (p : Pattern Char) (repl : List Char → List Char) (s : String) : Option String :=
  if p.search none s.toList then some (String.ofList (p.sub repl none s.toList)) else none

def bearer_repl (_ : List Char) : List Char :=
  "Bearer [REDACTED]".toList

def secret_repl (m : List Char) : List Char :=
  (keyword m).getD [] ++ "=[REDACTED]".toList

def patterns : Patterns where
  canary         := replace _CANARY fun _ => REDACTED
  provider_token := replace (_PROVIDER_TOKEN py) fun _ => REDACTED
  bearer         := replace (_BEARER py) bearer_repl
  secret         := replace (_ASSIGNED_SECRET py) secret_repl
  sensitive_key  := _SENSITIVE_KEY

end

end Redaction
