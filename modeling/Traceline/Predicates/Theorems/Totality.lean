import Traceline.Predicates.Theorems.Grammar
import Traceline.Predicates.Theorems.Monotone

namespace Predicates

open Events

-- PredicateError and its two kinds.
def Error.isPredicateError : Error → Bool
  | .syntax_error _ _ _ | .semantic _ => true
  | .value _                          => false

-- A number starts at the character.
def Numeral (py : Python) (c : Char) (cs : List Char) : Prop :=
  py.isdigit c ∨ c = '-' ∧ cs.head?.any py.isdigit

-- The value of the number that the text starts with.
def leading_number (py : Python) (cs : List Char) : Except Error Json :=
  read_number py (cs.take (scan_number py cs).fst) (scan_number py cs).snd

-- From position `i` on, the lexer comes to a number that does not read.
inductive Unreadable (py : Python) (text : List Char) : ℕ → List Char → Prop
  | here {i c cs e} :
    Numeral py c cs → leading_number py (c :: cs) = .error e → Unreadable py text i (c :: cs)
  | blank {i c cs} :
    c ∈ [' ', '\t', '\r', '\n'] → Unreadable py text (i + 1) cs → Unreadable py text i (c :: cs)
  | op {i c cs symbol n} :
    symbol? (c :: cs) = some (symbol, n) → Unreadable py text (i + n) (cs.drop (n - 1)) →
    Unreadable py text i (c :: cs)
  | mark {i c cs} :
    c ∈ ['(', ')', '.'] → Unreadable py text (i + 1) cs → Unreadable py text i (c :: cs)
  | string {i c cs value n} :
    c = '"' ∨ c = '\'' → scan_string text c i (i + 1) cs = .ok (value, n) →
    Unreadable py text (i + 1 + n) (cs.drop n) → Unreadable py text i (c :: cs)
  | number {i c cs value} :
    Numeral py c cs → leading_number py (c :: cs) = .ok value →
    Unreadable py text (i + (scan_number py (c :: cs)).fst)
      (cs.drop ((scan_number py (c :: cs)).fst - 1)) → Unreadable py text i (c :: cs)
  | name {i c cs} :
    ¬ Numeral py c cs → py.isalpha c ∨ c = '_' →
    Unreadable py text (i + 1 + (cs.takeWhile py.isname).length)
      (cs.drop (cs.takeWhile py.isname).length) → Unreadable py text i (c :: cs)

section Lexer

variable {py : Python} {text cs : List Char} {c : Char} {i : ℕ}

theorem read_number_error {raw : List Char} {is_float : Bool} {e : Error}
    (h : read_number py raw is_float = .error e) : ∃ m, e = .value m := by
  unfold read_number at h
  split at h
  case isTrue  =>
    cases hf : py.float raw with
    | error m => exact ⟨m, by simpa [hf, Except.map, Except.mapError] using h.symm⟩
    | ok v    => simp [hf, Except.map, Except.mapError] at h
  case isFalse =>
    cases hi : py.int raw with
    | error m => exact ⟨m, by simpa [hi, Except.map, Except.mapError] using h.symm⟩
    | ok v    => simp [hi, Except.map, Except.mapError] at h

theorem scan_string_error {quote : Char} {start i : ℕ} {e : Error}
    (h : scan_string text quote start i cs = .error e) : e.isPredicateError := by
  fun_induction scan_string text quote start i cs with
  | case1 | case3 | case5 | case6 | case8     => cases h; rfl
  | case2                                     => cases h
  | case4 _ _ _ _ _ _ _ _ ih | case7 _ _ _ _ _ _ _ ih | case9 _ _ _ _ _ ih =>
    rcases Except.bind_eq_error_iff.mp h with h | ⟨_, -, h⟩
    · exact ih h
    · cases h

theorem unreadable_of_tokenize {m : String} (h : tokenize py text i cs = .error (.value m)) :
    Unreadable py text i cs := by
  fun_induction tokenize py text i cs with
  | case1                                  => cases h
  | case2 i c cs hblank ih                 => exact .blank hblank (ih h)
  | case3 i c cs _ symbol n hs ih          =>
    rcases Except.bind_eq_error_iff.mp h with h | ⟨_, -, h⟩
    · exact .op hs (ih h)
    · cases h
  | case4 i cs _ _ ih | case5 i cs _ _ _ ih | case6 i cs _ _ _ _ ih =>
    rcases Except.bind_eq_error_iff.mp h with h | ⟨_, -, h⟩
    · exact .mark (by simp) (ih h)
    · cases h
  | case7 i c cs _ _ _ _ _ hquote ih       =>
    rcases Except.bind_eq_error_iff.mp h with h | ⟨⟨value, n⟩, hscan, h⟩
    · cases scan_string_error h
    · rcases Except.bind_eq_error_iff.mp h with h | ⟨_, -, h⟩
      · exact .string hquote hscan (ih n h)
      · cases h
  | case8 i c cs _ _ _ _ _ _ hnum n is_float hscan ih =>
    rcases Except.bind_eq_error_iff.mp h with h | ⟨value, hread, h⟩
    · exact .here hnum (by rwa [leading_number, hscan])
    · rcases Except.bind_eq_error_iff.mp h with h | ⟨_, -, h⟩
      · refine .number hnum (by rwa [leading_number, hscan]) ?_
        rw [hscan]
        exact ih h
      · cases h
  | case9 i c cs _ _ _ _ _ _ hnum halpha _ ih =>
    rcases Except.bind_eq_error_iff.mp h with h | ⟨_, -, h⟩
    · exact .name hnum halpha (ih h)
    · cases h
  | case10                                 => cases h

-- The characters that neither start a number nor a name.
theorem plain_of_word (h : Numeral py c cs ∨ py.isalpha c ∨ c = '_') :
    c ∉ [' ', '\t', '\r', '\n', '(', ')', '.', '"', '\''] ∧ symbol? (c :: cs) = none := by
  constructor
  case left  =>
    intro hc
    simp only [List.mem_cons, List.not_mem_nil, or_false] at hc
    rcases hc with rfl | rfl | rfl | rfl | rfl | rfl | rfl | rfl | rfl <;>
      simp [Numeral, Python.isdigit, Python.isalpha] at h
  case right =>
    unfold symbol?
    split
    case h_10 => rfl
    all_goals
      rename_i heq
      obtain ⟨rfl, -⟩ := List.cons.inj heq
      simp [Numeral, Python.isdigit, Python.isalpha] at h

theorem tokenize_numeral (h : Numeral py c cs) :
    tokenize py text i (c :: cs) = do
      let value ← leading_number py (c :: cs)
      let tokens ← tokenize py text (i + (scan_number py (c :: cs)).fst)
        (cs.drop ((scan_number py (c :: cs)).fst - 1))
      return (.number value, i) :: tokens := by
  have hnum : py.isdigit c ∨ c = '-' ∧ cs.head?.any py.isdigit := h
  obtain ⟨hplain, hs⟩ := plain_of_word (.inl h)
  simp only [List.mem_cons, List.not_mem_nil, or_false, not_or] at hplain
  rw [tokenize, if_neg (by simp [hplain]), hs]
  dsimp only
  rw [if_neg (by simp [hplain]), if_neg (by simp [hplain]), if_neg (by simp [hplain]),
    if_neg (by simp [hplain]), if_pos hnum]
  rfl

theorem tokenize_name (hn : ¬ Numeral py c cs) (h : py.isalpha c ∨ c = '_') :
    tokenize py text i (c :: cs) = do
      let tokens ← tokenize py text (i + 1 + (cs.takeWhile py.isname).length)
        (cs.drop (cs.takeWhile py.isname).length)
      return (.ident (String.ofList (c :: cs.takeWhile py.isname)), i) :: tokens := by
  have hnum : ¬ (py.isdigit c ∨ c = '-' ∧ cs.head?.any py.isdigit) := hn
  obtain ⟨hplain, hs⟩ := @plain_of_word py cs c (.inr h)
  simp only [List.mem_cons, List.not_mem_nil, or_false, not_or] at hplain
  rw [tokenize, if_neg (by simp [hplain]), hs]
  dsimp only
  rw [if_neg (by simp [hplain]), if_neg (by simp [hplain]), if_neg (by simp [hplain]),
    if_neg (by simp [hplain]), if_neg hnum, if_pos h]

theorem tokenize_string {value : List Char} {n : ℕ} (h : c = '"' ∨ c = '\'')
    (hscan : scan_string text c i (i + 1) cs = .ok (value, n)) :
    tokenize py text i (c :: cs) = do
      let tokens ← tokenize py text (i + 1 + n) (cs.drop n)
      return (.string (String.ofList value), i) :: tokens := by
  have hs : symbol? (c :: cs) = none := by rcases h with rfl | rfl <;> rfl
  have hplain : c ∉ [' ', '\t', '\r', '\n'] ∧ c ≠ '(' ∧ c ≠ ')' ∧ c ≠ '.' := by
    rcases h with rfl | rfl <;> decide
  rw [tokenize, if_neg hplain.left, hs]
  dsimp only
  rw [if_neg hplain.right.left, if_neg hplain.right.right.left, if_neg hplain.right.right.right,
    if_pos h, hscan]
  rfl

theorem tokenize_mark (h : c ∈ ['(', ')', '.']) :
    ∃ tok, tokenize py text i (c :: cs) = do
      let tokens ← tokenize py text (i + 1) cs
      return (tok, i) :: tokens := by
  simp only [List.mem_cons, List.not_mem_nil, or_false] at h
  rcases h with rfl | rfl | rfl
  · exact ⟨.lparen, by rw [tokenize, if_neg (by decide)]; rfl⟩
  · exact ⟨.rparen, by rw [tokenize, if_neg (by decide)]; rfl⟩
  · exact ⟨.dot, by rw [tokenize, if_neg (by decide)]; rfl⟩

theorem symbol_not_blank {r : Symbol × ℕ} (h : symbol? (c :: cs) = some r) :
    c ∉ [' ', '\t', '\r', '\n'] := by
  intro hc
  simp only [List.mem_cons, List.not_mem_nil, or_false] at hc
  rcases hc with rfl | rfl | rfl | rfl <;> cases h

theorem tokenize_op {symbol : Symbol} {n : ℕ} (h : symbol? (c :: cs) = some (symbol, n)) :
    tokenize py text i (c :: cs) = do
      let tokens ← tokenize py text (i + n) (cs.drop (n - 1))
      return (.op symbol, i) :: tokens := by
  rw [tokenize, if_neg (symbol_not_blank h), h]

-- The lexer raises a ValueError exactly where it comes to a number that does not read.
theorem unreadable_iff :
    Unreadable py text i cs ↔ ∃ m, tokenize py text i cs = .error (.value m) := by
  constructor
  case mpr => exact fun ⟨_, h⟩ => unreadable_of_tokenize h
  case mp  =>
    intro h
    induction h with
    | here hnum hread           =>
      obtain ⟨m, rfl⟩ := read_number_error hread
      exact ⟨m, by rw [tokenize_numeral hnum, hread]; rfl⟩
    | blank hblank _ ih         =>
      obtain ⟨m, ih⟩ := ih
      exact ⟨m, by rw [tokenize, if_pos hblank, ih]⟩
    | op hs _ ih                =>
      obtain ⟨m, ih⟩ := ih
      exact ⟨m, by rw [tokenize_op hs, ih]; rfl⟩
    | @mark i c cs hc _ ih      =>
      obtain ⟨m, ih⟩ := ih
      obtain ⟨tok, htok⟩ := @tokenize_mark py text cs c i hc
      exact ⟨m, by rw [htok, ih]; rfl⟩
    | string hc hscan _ ih      =>
      obtain ⟨m, ih⟩ := ih
      exact ⟨m, by rw [tokenize_string hc hscan, ih]; rfl⟩
    | number hnum hread _ ih    =>
      obtain ⟨m, ih⟩ := ih
      refine ⟨m, ?_⟩
      rw [tokenize_numeral hnum, hread]
      dsimp only [bind, Except.bind]
      rw [ih]
    | name hnum hname _ ih      =>
      obtain ⟨m, ih⟩ := ih
      exact ⟨m, by rw [tokenize_name hnum hname, ih]; rfl⟩

end Lexer

section Parser

variable {py : Python} {text : List Char} {d n : ℕ}

-- Only a PredicateError is raised.
def Clean {α : Type} (r : Except Error α) : Prop :=
  ∀ e, r = .error e → e.isPredicateError

def CleanUpTo (n : ℕ) (f : (ts : Tokens) → Except Error (Parsed ts.length)) : Prop :=
  ∀ ts, ts.length ≤ n → Clean (f ts)

theorem Clean.ok {α : Type} (a : α) : Clean (.ok a) :=
  nofun

theorem Clean.bind {α β : Type} {r : Except Error α} {f : α → Except Error β} (h : Clean r)
    (hf : ∀ a, r = .ok a → Clean (f a)) : Clean (r >>= f) := by
  intro e he
  rcases Except.bind_eq_error_iff.mp he with he | ⟨a, ha, he⟩
  · exact h e he
  · exact hf a ha e he

theorem enter_nesting_clean {tok} : Clean (enter_nesting text d tok) := by
  intro e h
  unfold enter_nesting at h
  split at h <;> cases h
  rfl

theorem parse_segments_clean {ts} : Clean (parse_segments py text ts) := by
  fun_induction parse_segments py text ts with
  | case1 | case2 | case4                  => rintro e ⟨⟩; rfl
  | case3 i name j ts hvisible hname ih    => exact ih.bind fun _ _ => Clean.ok _
  | case5 ts                               => exact Clean.ok _

theorem parse_path_clean {name ts} : Clean (parse_path py text name ts) := by
  unfold parse_path
  split
  · rintro e ⟨⟩
    rfl
  · split
    · rintro e ⟨⟩
      rfl
    · exact parse_segments_clean.bind fun _ _ => Clean.ok _

theorem primary_clean (ih : ∀ m < n, ∀ d, CleanUpTo m (parse_or py text d)) :
    CleanUpTo n (parse_primary py text d) := by
  intro ts hn
  cases ts with
  | nil       =>
    rw [parse_primary.eq_5 _ _ _ _ (by simp) (by simp) (by simp) (by simp)]
    rintro e ⟨⟩
    rfl
  | cons t ts =>
    obtain ⟨tok, i⟩ := t
    cases tok with
    | op _ | dot | rparen | eof =>
      rw [parse_primary.eq_5 _ _ _ _ (by simp) (by simp) (by simp) (by simp)]
      rintro e ⟨⟩
      rfl
    | number | string           =>
      rw [parse_primary]
      exact Clean.ok _
    | ident name =>
      rw [parse_primary]
      split_ifs
      · exact Clean.ok _
      · exact Clean.ok _
      · exact Clean.ok _
      · exact parse_path_clean.bind fun _ _ => Clean.ok _
    | lparen =>
      rw [parse_primary]
      refine enter_nesting_clean.bind fun _ _ => (ih ts.length hn _ ts le_rfl).bind fun p _ => ?_
      obtain ⟨node, rest, hs⟩ := p
      cases rest with
      | nil       =>
        rintro e ⟨⟩
        rfl
      | cons t rest =>
        obtain ⟨tok, j⟩ := t
        cases tok with
        | rparen => exact Clean.ok _
        | ident _ | number _ | string _ | op _ | dot | lparen | eof =>
          rintro e ⟨⟩
          rfl

theorem comparison_clean (ih : CleanUpTo n (parse_primary py text d)) :
    CleanUpTo n (parse_comparison py text d) := by
  intro ts hn
  rw [parse_comparison]
  refine (ih ts hn).bind fun p _ => ?_
  obtain ⟨left, rest, hs⟩ := p
  cases rest with
  | nil       => exact Clean.ok _
  | cons t rest =>
    obtain ⟨tok, i⟩ := t
    cases tok with
    | ident _ | number _ | string _ | dot | lparen | rparen | eof => exact Clean.ok _
    | op symbol =>
      dsimp only
      split
      case h_2 => exact Clean.ok _
      case h_1 =>
        rw [List.length_cons] at hs
        exact (ih rest (by omega)).bind fun _ _ => Clean.ok _

theorem not_clean (ih : ∀ d, CleanUpTo n (parse_comparison py text d)) :
    CleanUpTo n (parse_not py text d) := by
  intro ts
  induction ts generalizing d with
  | nil          =>
    intro hn
    rw [parse_not.eq_2 _ _ _ _ (by simp)]
    exact ih d _ hn
  | cons t ts ihts =>
    intro hn
    by_cases ht : t.fst = .op .not
    case neg =>
      rw [parse_not.eq_2 _ _ _ _ (by rintro i rest ⟨⟩; exact ht rfl)]
      exact ih d _ hn
    case pos =>
      obtain ⟨_, i⟩ := t
      cases ht
      rw [parse_not]
      exact enter_nesting_clean.bind fun _ _ =>
        (ihts (Nat.le_of_succ_le hn)).bind fun _ _ => Clean.ok _

theorem Loop.clean {symbol join operand f} (hf : Loop symbol join operand f)
    (ho : CleanUpTo n operand) {node ts} (hn : ts.length ≤ n) : Clean (f node ts) := by
  intro e he
  by_cases ht : (peek ts).fst = .op symbol
  case neg =>
    obtain ⟨_, hstop⟩ : Returns (f node ts) node ts := hf.stop ht
    rw [he] at hstop
    cases hstop
  case pos =>
    match ts with
    | []           => cases ht
    | (_, i) :: ts =>
      cases ht
      rw [List.length_cons] at hn
      rcases hf.raises he with he | ⟨q, -, he⟩
      · exact ho ts (by omega) e he
      · have hq := q.shorter
        exact hf.clean ho (by omega) e he
termination_by ts.length

theorem parse_or_clean (d : ℕ) : CleanUpTo n (parse_or py text d) := by
  induction n using Nat.strong_induction_on generalizing d with
  | _ n ih =>
    have hnot (d) : CleanUpTo n (parse_not py text d) :=
      not_clean fun _ => comparison_clean <| primary_clean ih
    have hand : CleanUpTo n (parse_and py text d) := by
      intro ts hn
      rw [parse_and]
      refine (hnot d ts hn).bind fun p _ => ?_
      have hp := p.shorter
      exact (and_loop_spec.clean (hnot d) (by omega)).bind fun _ _ => Clean.ok _
    intro ts hn
    rw [parse_or]
    refine (hand ts hn).bind fun p _ => ?_
    have hp := p.shorter
    exact (or_loop_spec.clean hand (by omega)).bind fun _ _ => Clean.ok _

theorem parse_clean {ts} : Clean (parse py text ts) := by
  refine (parse_or_clean 0 ts le_rfl).bind fun p _ => ?_
  dsimp only
  split
  · exact Clean.ok _
  · rintro e ⟨⟩
    rfl

end Parser

section Compile

variable {py : Python} {text : List Char}

-- A predicate is compiled, or a PredicateError is raised.
theorem compile_clean_iff :
    Clean (compile py text) ↔ ¬ (¬ text.all py.isspace ∧ Unreadable py text 0 text) := by
  unfold compile
  split
  case isTrue hblank  =>
    refine iff_of_true ?_ fun h => h.left hblank
    rintro e ⟨⟩
    rfl
  case isFalse hblank =>
    constructor
    case mp  =>
      rintro h ⟨-, hu⟩
      obtain ⟨m, hm⟩ := unreadable_iff.mp hu
      cases h (.value m) <| Except.bind_eq_error_iff.mpr (.inl hm)
    case mpr =>
      intro hu
      refine Clean.bind (fun e he => ?_) fun _ _ => parse_clean
      cases e with
      | syntax_error | semantic => rfl
      | value m                 => exact absurd ⟨hblank, unreadable_of_tokenize he⟩ hu

end Compile

namespace Node

-- What an operand stands for, where it is a literal or a path.
def operand (e : TraceEvent) : Node → Option Value
  | .literal value                               => some (.json value)
  | .path field segments                         => some (resolve e field segments)
  | .compare _ _ _ | .and _ _ | .or _ _ | .not _ => none

-- An ordering of the predicate is between the timestamp of the event and a date, only one of which
-- is naive.
def Mixed (fromisoformat : String → Option Timestamp) (e : TraceEvent) (n : Node) : Prop :=
  ∃ x ∈ n.comparisons, ∃ a ∈ x.2.1.operand e, ∃ b ∈ x.2.2.operand e,
    Clash fromisoformat x.1 a b

end Node

section Evaluation

variable {fromisoformat : String → Option Timestamp} {e : TraceEvent} {n left right : Node}
variable {op : Op} {a b : Value}

theorem time_order_error {s t : Timestamp} (h : s.offset.isSome ≠ t.offset.isSome) :
    ∃ m, time_order s t = .error m := by
  unfold time_order Timestamp.lt
  cases hs : s.offset <;> cases ht : t.offset <;> simp_all [bind, Except.bind]

theorem order_eq {s t : Timestamp} (h : a.isTime ∨ b.isTime) (hs : s ∈ a.instant? fromisoformat)
    (ht : t ∈ b.instant? fromisoformat) : order fromisoformat a b = time_order s t := by
  unfold Value.instant? at hs ht
  split at hs
  case h_1 =>
    cases hs
    split at ht
    case h_1 => cases ht; rfl
    case h_2 => rw [order, Option.mem_def.mp ht]; rfl
    case h_3 => cases ht
  case h_2 =>
    split at ht
    case h_1 => cases ht; rw [order, Option.mem_def.mp hs]; rfl
    case h_2 => simp [Value.isTime] at h
    case h_3 => cases ht
  case h_3 => cases hs

theorem compare_clash (h : Clash fromisoformat op a b) :
    ∃ m, compare fromisoformat op a b = .error m := by
  obtain ⟨hop, htime, s, hs, t, ht, hne⟩ := h
  have hmissing : ¬ (a = .missing ∨ b = .missing) := by
    rintro (rfl | rfl)
    · cases hs
    · cases ht
  have horder : ∃ m, order fromisoformat a b = .error m := by
    rw [order_eq htime hs ht]
    exact time_order_error hne
  obtain ⟨m, hm⟩ := horder
  refine ⟨m, ?_⟩
  unfold compare
  rw [if_neg hmissing]
  cases op with
  | eq => exact absurd rfl hop.left
  | ne => exact absurd rfl hop.right
  | lt | le | gt | ge =>
    dsimp only
    rw [hm]
    rfl

theorem compare_ok_iff :
    (∃ c, compare fromisoformat op a b = .ok c) ↔ ¬ Clash fromisoformat op a b := by
  constructor
  case mpr => exact compare_ok
  case mp  =>
    rintro ⟨c, hc⟩ h
    obtain ⟨m, hm⟩ := compare_clash h
    rw [hc] at hm
    cases hm

theorem Node.evaluate_operand (h : a ∈ n.operand e) : n.evaluate fromisoformat e = .ok a := by
  cases n with
  | literal | path           => cases h; rfl
  | compare | and | or | not => cases h

theorem ofKleene_instant? (k : Kleene) : (ofKleene k).instant? fromisoformat = none := by
  rcases k with _ | _ | _ <;> rfl

-- What is neither a literal nor a path is no instant.
theorem Node.instant?_eq_none (hn : n.operand e = none)
    (h : n.evaluate fromisoformat e = .ok a) : a.instant? fromisoformat = none := by
  cases n with
  | literal | path        => cases hn
  | compare op left right =>
    obtain ⟨b, -, h⟩ := Except.bind_eq_ok_iff.mp h
    obtain ⟨c, -, h⟩ := Except.bind_eq_ok_iff.mp h
    obtain rfl | ⟨v, rfl⟩ := compare_cases h <;> rfl
  | and left right        =>
    obtain ⟨b, -, h⟩ := Except.bind_eq_ok_iff.mp h
    obtain ⟨c, -, h⟩ := Except.bind_eq_ok_iff.mp h
    cases h
    rw [bool_and_eq, ofKleene_instant?]
  | or left right         =>
    obtain ⟨b, -, h⟩ := Except.bind_eq_ok_iff.mp h
    obtain ⟨c, -, h⟩ := Except.bind_eq_ok_iff.mp h
    cases h
    rw [bool_or_eq, ofKleene_instant?]
  | not child             =>
    obtain ⟨b, -, h⟩ := Except.bind_eq_ok_iff.mp h
    cases h
    rw [bool_not_eq, ofKleene_instant?]

-- Two sides that are evaluated clash only where both are literals or paths.
theorem Node.operands_of_clash (ha : left.evaluate fromisoformat e = .ok a)
    (hb : right.evaluate fromisoformat e = .ok b) (h : Clash fromisoformat op a b) :
    a ∈ left.operand e ∧ b ∈ right.operand e := by
  obtain ⟨-, -, s, hs, t, ht, -⟩ := h
  constructor
  · cases hl : left.operand e with
    | none   => rw [Node.instant?_eq_none hl ha] at hs; cases hs
    | some v =>
      rw [Node.evaluate_operand hl] at ha
      exact congrArg some (Except.ok.inj ha)
  · cases hr : right.operand e with
    | none   => rw [Node.instant?_eq_none hr hb] at ht; cases ht
    | some v =>
      rw [Node.evaluate_operand hr] at hb
      exact congrArg some (Except.ok.inj hb)

theorem Node.mixed_of_subset {m : Node} (h : m.Mixed fromisoformat e)
    (hs : m.comparisons ⊆ n.comparisons) : n.Mixed fromisoformat e := by
  obtain ⟨x, hx, hm⟩ := h
  exact ⟨x, hs hx, hm⟩

theorem Node.mixed_append (hs : n.comparisons = left.comparisons ++ right.comparisons) :
    n.Mixed fromisoformat e ↔ left.Mixed fromisoformat e ∨ right.Mixed fromisoformat e := by
  simp only [Node.Mixed, hs, List.mem_append, or_and_right, exists_or]

-- Two sides are evaluated one after the other.
theorem both_ok_iff {f : Value → Value → Except String Value} :
    (∃ c, (do
      let a ← left.evaluate fromisoformat e
      let b ← right.evaluate fromisoformat e
      f a b) = .ok c) ↔
    ∃ a, left.evaluate fromisoformat e = .ok a ∧ ∃ b, right.evaluate fromisoformat e = .ok b ∧
      ∃ c, f a b = .ok c := by
  simp only [Except.bind_eq_ok_iff]
  constructor
  · rintro ⟨c, a, ha, b, hb, hc⟩
    exact ⟨a, ha, b, hb, c, hc⟩
  · rintro ⟨a, ha, b, hb, c, hc⟩
    exact ⟨c, a, ha, b, hb, hc⟩

theorem Node.evaluate_ok_iff (n : Node) :
    (∃ a, n.evaluate fromisoformat e = .ok a) ↔ ¬ n.Mixed fromisoformat e := by
  induction n with
  | literal | path                => exact iff_of_true ⟨_, rfl⟩ <| by rintro ⟨x, ⟨⟩, -⟩
  | not child ih                  =>
    have hchild : (Node.not child).Mixed fromisoformat e ↔ child.Mixed fromisoformat e := Iff.rfl
    rw [hchild, ← ih]
    constructor
    · rintro ⟨a, h⟩
      obtain ⟨b, hb, -⟩ := Except.bind_eq_ok_iff.mp h
      exact ⟨b, hb⟩
    · rintro ⟨b, hb⟩
      exact ⟨bool_not b, Except.bind_eq_ok_iff.mpr ⟨b, hb, rfl⟩⟩
  | and left right ihl ihr        =>
    have hsides : (Node.and left right).Mixed fromisoformat e ↔
        left.Mixed fromisoformat e ∨ right.Mixed fromisoformat e := Node.mixed_append rfl
    rw [hsides, not_or, ← ihl, ← ihr]
    refine both_ok_iff.trans ⟨?_, ?_⟩
    · rintro ⟨a, ha, b, hb, -⟩
      exact ⟨⟨a, ha⟩, b, hb⟩
    · rintro ⟨⟨a, ha⟩, b, hb⟩
      exact ⟨a, ha, b, hb, _, rfl⟩
  | or left right ihl ihr         =>
    have hsides : (Node.or left right).Mixed fromisoformat e ↔
        left.Mixed fromisoformat e ∨ right.Mixed fromisoformat e := Node.mixed_append rfl
    rw [hsides, not_or, ← ihl, ← ihr]
    refine both_ok_iff.trans ⟨?_, ?_⟩
    · rintro ⟨a, ha, b, hb, -⟩
      exact ⟨⟨a, ha⟩, b, hb⟩
    · rintro ⟨⟨a, ha⟩, b, hb⟩
      exact ⟨a, ha, b, hb, _, rfl⟩
  | compare op left right ihl ihr =>
    refine both_ok_iff.trans ⟨?_, ?_⟩
    · rintro ⟨a, ha, b, hb, hc⟩ ⟨x, hx, hm⟩
      rw [Node.comparisons, List.cons_append, List.mem_cons, List.mem_append] at hx
      rcases hx with rfl | hx | hx
      · obtain ⟨a', ha', b', hb', hclash⟩ := hm
        rw [Node.evaluate_operand ha'] at ha
        rw [Node.evaluate_operand hb'] at hb
        cases ha
        cases hb
        exact compare_ok_iff.mp hc hclash
      · exact ihl.mp ⟨a, ha⟩ ⟨x, hx, hm⟩
      · exact ihr.mp ⟨b, hb⟩ ⟨x, hx, hm⟩
    · intro h
      obtain ⟨a, ha⟩ := ihl.mpr fun hl => h <| Node.mixed_of_subset hl <|
        List.subset_cons_of_subset _ <| List.subset_append_left _ _
      obtain ⟨b, hb⟩ := ihr.mpr fun hr => h <| Node.mixed_of_subset hr <|
        List.subset_cons_of_subset _ <| List.subset_append_right _ _
      refine ⟨a, ha, b, hb, compare_ok_iff.mpr fun hclash => h ?_⟩
      obtain ⟨hl, hr⟩ := Node.operands_of_clash ha hb hclash
      exact ⟨_, .head _, a, hl, b, hr, hclash⟩

theorem evaluate_ok_iff :
    (∃ v, evaluate fromisoformat e n = .ok v) ↔ ¬ n.Mixed fromisoformat e := by
  rw [← n.evaluate_ok_iff]
  constructor
  · rintro ⟨v, h⟩
    obtain ⟨a, ha, -⟩ := Except.bind_eq_ok_iff.mp h
    exact ⟨a, ha⟩
  · rintro ⟨a, ha⟩
    exact ⟨_, Except.bind_eq_ok_iff.mpr ⟨a, ha, rfl⟩⟩

end Evaluation

-- Compiling a text raises a PredicateError or nothing unless the lexer comes to a number that does
-- not read. A compiled predicate evaluates to a boolean unless it mixes naive and aware instants.
theorem predicate_fails_with_predicate_error (py : Python)
    (fromisoformat : String → Option Timestamp) (text : List Char) :
    ((∀ e, compile py text = .error e → e.isPredicateError) ↔
      ¬ (¬ text.all py.isspace ∧ Unreadable py text 0 text)) ∧
    ∀ node, compile py text = .ok node → ∀ event,
      (∃ v, evaluate fromisoformat event node = .ok v) ↔ ¬ node.Mixed fromisoformat event :=
  ⟨compile_clean_iff, fun _ _ _ => evaluate_ok_iff⟩

namespace Given

-- `datetime.fromisoformat`, for one date.
def new_year (s : String) : Option Timestamp :=
  if s = "2026-01-01" then some ⟨1767225600000000, none⟩ else none

end Given

-- A number without the digits of its exponent is no PredicateError, and an aware timestamp does not
-- compare with a naive date.
theorem fails_with_other_errors :
    compile .ascii ['1', 'e'] = .error (.value "no float") ∧
    ∃ node, compile .ascii "timestamp < \"2026-01-01\"".toList = .ok node ∧
      evaluate Given.new_year (Given.event []) node =
        .error "can't compare offset-naive and offset-aware datetimes" := by
  constructor
  case left  =>
    simp [compile, tokenize, symbol?, scan_number, digits, read_number, Python.isdigit,
      Python.isspace, Python.ascii, Except.mapError, Except.map, bind, Except.bind]
  case right =>
    have htokens : ∀ text, tokenize .ascii text 0 "timestamp < \"2026-01-01\"".toList =
        .ok [(.ident "timestamp", 0), (.op .lt, 10), (.string "2026-01-01", 12), (.eof, 24)] := by
      simp [tokenize, symbol?, Python.isdigit, Python.isalpha, Python.isname, Python.isalnum,
        Python.ascii, scan_string, bind, Except.bind, pure, Except.pure]
    have hpath : Derives Segment .primary 0 [.ident "timestamp"] (.path .timestamp []) :=
      .path rfl (List.forall_mem_nil _)
    have hnode : Derives Segment .comparison 0
        ([.ident "timestamp"] ++ .op .lt :: [.string "2026-01-01"])
        (.compare .lt (.path .timestamp []) (.literal (.str "2026-01-01"))) :=
      .compare rfl hpath .string
    refine ⟨.compare .lt (.path .timestamp []) (.literal (.str "2026-01-01")), ?_, rfl⟩
    rw [compile, if_neg (by decide), htokens]
    exact parse_eq_ok_iff.mpr <| .of_and <| .of_not <| .of_comparison hnode

end Predicates
