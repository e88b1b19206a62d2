import Traceline.Evaluators.Theorems.Grammar

-- The two lexers read the same lexemes off the same text.
namespace Agreement

open Predicates (Value Op Symbol)
open Events

abbrev blanks : List Char :=
  [' ', '\t', '\r', '\n']

namespace Lexeme

def symbol_text : Symbol → List Char
  | .eq  => ['=', '=']
  | .ne  => ['!', '=']
  | .le  => ['<', '=']
  | .ge  => ['>', '=']
  | .and => ['&', '&']
  | .or  => ['|', '|']
  | .lt  => ['<']
  | .gt  => ['>']
  | .not => ['!']

def condition_text : Lexeme → List Char
  | .symbol s            => symbol_text s
  | .lparen              => ['(']
  | .rparen              => [')']
  | .path                => "raw_value".toList
  | .constant name _     => name.toList
  | .number raw _        => raw
  | .string quote pieces => quote :: pieces.flatMap Piece.text ++ [quote]

def predicate_text (x : String) : Lexeme → List Char
  | .path => "payload.".toList ++ x.toList
  | l     => l.condition_text

end Lexeme

section Texts

variable (py : Python)

-- A number without exponent, the only kind both languages read.
structure Numeral where
  sign     : List Char
  digits   : List Char
  fraction : Option (List Char)
  signed   : sign = [] ∨ sign = ['-']
  nonempty : digits ≠ []
  digit    : ∀ c ∈ digits, py.isdigit c
  decimal  : ∀ cs ∈ fraction, ∀ c ∈ cs, py.isdigit c

def Numeral.text {py : Python} (num : Numeral py) : List Char :=
  num.sign ++ (num.digits ++ num.fraction.elim [] ('.' :: ·))

-- The lexemes that both languages know.
def Lexeme.Valid : Lexeme → Prop
  | .constant name value => (name, value) ∈ constants
  | .number raw value    => ∃ num : Numeral py, raw = num.text ∧
    Conditions.read_number py raw num.fraction.isSome = .ok value
  | .string quote pieces => (quote = '"' ∨ quote = '\'') ∧ ∀ p ∈ pieces, p.Within quote
  | _                    => True

-- The lexeme ends where the text after it starts.
def Lexeme.Ends (t : List Char) : Lexeme → Prop
  | .path | .constant _ _ | .number _ _       =>
    ∀ c ∈ t.head?, py.isname c = false ∧ py.isdigit c = false ∧ c ≠ '.'
  | .symbol .lt | .symbol .gt | .symbol .not => ∀ c ∈ t.head?, c ≠ '='
  | _                                        => True

-- A condition and a predicate that are spelled alike but for the path.
inductive Spells (x : String) : List Lexeme → List Char → List Char → Prop
  | nil : Spells x [] [] []
  | blank {ls t t' c} : c ∈ blanks → Spells x ls t t' → Spells x ls (c :: t) (c :: t')
  | lexeme {l ls t t'} : l.Valid py → l.Ends py t → l.Ends py t' → Spells x ls t t' →
    Spells x (l :: ls) (l.condition_text ++ t) (l.predicate_text x ++ t')

-- The characters of a name.
def Named (name : String) : Prop :=
  ∃ c cs, name.toList = c :: cs ∧ py.isalpha c ∧ py.isdigit c = false ∧ ∀ d ∈ cs, py.isname d

-- A name that may follow `payload.`
structure Name (x : String) : Prop extends Segment x where
  named : Named py x

end Texts

section Characters

variable {py : Python} {c : Char} {cs t : List Char} {s : Symbol}

-- The characters that are neither digits nor letters of a name.
theorem plain_of_word (h : py.isdigit c ∨ py.isalpha c) :
    c ∉ blanks ∧ c ∉ ['=', '!', '<', '>', '&', '|', '(', ')', '.', '"', '\'', '-', '_'] := by
  constructor
  · intro hc
    simp only [blanks, List.mem_cons, List.not_mem_nil, or_false] at hc
    rcases hc with rfl | rfl | rfl | rfl <;> simp [Python.isdigit, Python.isalpha] at h
  · intro hc
    simp only [List.mem_cons, List.not_mem_nil, or_false] at hc
    rcases hc with rfl | rfl | rfl | rfl | rfl | rfl | rfl | rfl | rfl | rfl | rfl | rfl | rfl <;>
      simp [Python.isdigit, Python.isalpha] at h

theorem symbol_eq_none (h : c ∉ ['=', '!', '<', '>', '&', '|']) :
    Predicates.symbol? (c :: cs) = none := by
  unfold Predicates.symbol?
  split <;> simp_all

theorem symbol_eq_some (h : (Lexeme.symbol s).Ends py t) :
    Predicates.symbol? (Lexeme.symbol_text s ++ t) = some (s, (Lexeme.symbol_text s).length) := by
  cases s with
  | eq | ne | le | ge | and | or => rfl
  | lt | gt | not                =>
    unfold Predicates.symbol?
    split <;> simp_all [Lexeme.Ends, Lexeme.symbol_text]

theorem takeWhile_append {f : Char → Bool} (h : ∀ c ∈ cs, f c) (ht : ∀ c ∈ t.head?, f c = false) :
    (cs ++ t).takeWhile f = cs := by
  rw [List.takeWhile_append_of_pos h]
  cases t with
  | nil      => exact List.append_nil cs
  | cons c t => rw [List.takeWhile_cons, ht c rfl, if_neg Bool.false_ne_true, List.append_nil]

theorem digits_append (h : ∀ c ∈ cs, py.isdigit c) (ht : ∀ c ∈ t.head?, py.isdigit c = false) :
    Predicates.digits py (cs ++ t) = cs.length := by
  rw [Predicates.digits, takeWhile_append h ht]

theorem named_path : Named py "raw_value" ∧ Named py "payload" :=
  ⟨⟨'r', ['a', 'w', '_', 'v', 'a', 'l', 'u', 'e'], by simp, rfl, rfl,
    by simp [Python.isname, Python.isalnum]⟩,
    'p', ['a', 'y', 'l', 'o', 'a', 'd'], by simp, rfl, rfl, by simp [Python.isname, Python.isalnum]⟩

theorem named_constant {name : String} {value : Json} (h : (name, value) ∈ constants) :
    Named py name := by
  simp only [constants, List.mem_cons, List.not_mem_nil, or_false, Prod.mk.injEq] at h
  rcases h with ⟨rfl, -⟩ | ⟨rfl, -⟩ | ⟨rfl, -⟩
  · exact ⟨'t', ['r', 'u', 'e'], by simp, rfl, rfl, by simp [Python.isname, Python.isalnum]⟩
  · exact ⟨'f', ['a', 'l', 's', 'e'], by simp, rfl, rfl, by simp [Python.isname, Python.isalnum]⟩
  · exact ⟨'n', ['u', 'l', 'l'], by simp, rfl, rfl, by simp [Python.isname, Python.isalnum]⟩

end Characters

namespace Numeral

variable {py : Python} {t : List Char} (num : Numeral py)

-- Where the digits of a number start.
theorem head (u : List Char) :
    (if (num.sign ++ (num.digits ++ u)).head? = some '-' then 1 else 0) = num.sign.length := by
  obtain h | h := num.signed <;> rw [h]
  case inr => rfl
  case inl =>
    obtain ⟨d, ds, hd⟩ := List.exists_cons_of_ne_nil num.nonempty
    have hdigit := num.digit d (hd ▸ .head _)
    have ⟨_, hp⟩ := plain_of_word (.inl hdigit)
    rw [hd, if_neg]
    · rfl
    · rintro ⟨⟩
      simp at hp

-- A number is not taken for anything else.
theorem cons : ∃ c cs, num.text = c :: cs ∧ c ∉ blanks ∧
    c ∉ ['=', '!', '<', '>', '&', '|', '(', ')', '.', '"', '\''] ∧
      (py.isdigit c ∨ c = '-' ∧ ∀ t, (cs ++ t).head?.any py.isdigit) := by
  obtain ⟨d, ds, hd⟩ := List.exists_cons_of_ne_nil num.nonempty
  have hdigit := num.digit d (hd ▸ .head _)
  unfold text
  obtain h | h := num.signed <;> rw [h, hd]
  case inl =>
    have ⟨hb, hp⟩ := plain_of_word (.inl hdigit)
    refine ⟨d, _, rfl, hb, fun hc => hp ?_, .inl hdigit⟩
    simp only [List.mem_cons, List.not_mem_nil, or_false] at hc ⊢
    tauto
  case inr => exact ⟨'-', _, rfl, by simp, by simp, .inr ⟨rfl, fun t => by simpa using hdigit⟩⟩

end Numeral

section Conditions

variable {py : Python} {text t cs : List Char} {c : Char} {l : Lexeme}

-- A condition's lexer reads the lexeme off the front of a text.
def Lexes (py : Python) (text : List Char) (l : Lexeme) (t : List Char) : Prop :=
  ∀ i, ∃ j, Conditions.tokenize py text i (l.condition_text ++ t) = do
    let tokens ← Conditions.tokenize py text j t
    return (l.condition_token, i) :: tokens

theorem lexes_op {s : Symbol} {n : ℕ} (hb : c ∉ blanks)
    (hs : Predicates.symbol? (c :: cs) = some (s, n)) (i : ℕ) :
    Conditions.tokenize py text i (c :: cs) = do
      let tokens ← Conditions.tokenize py text (i + n) (cs.drop (n - 1))
      return (.op s, i) :: tokens := by
  rw [Conditions.tokenize, if_neg hb, hs]

theorem lexes_symbol {s : Symbol} (h : (Lexeme.symbol s).Ends py t) :
    Lexes py text (.symbol s) t := by
  intro i
  have hs := symbol_eq_some h
  refine ⟨i + (Lexeme.symbol_text s).length, ?_⟩
  cases s <;> exact lexes_op (by simp) hs i

theorem lexes_paren {c : Char} (hc : c = '(' ∨ c = ')') (i : ℕ) :
    Conditions.tokenize py text i (c :: t) = do
      let tokens ← Conditions.tokenize py text (i + 1) t
      return (.paren c, i) :: tokens := by
  have hb : c ∉ blanks := by rcases hc with rfl | rfl <;> simp
  have hs : Predicates.symbol? (c :: t) = none := by rcases hc with rfl | rfl <;> rfl
  rw [Conditions.tokenize, if_neg hb, hs]
  dsimp only
  rw [if_pos hc]

-- A name, which the text after it does not go on with.
theorem lexes_name {name : String} (h : Named py name)
    (ht : ∀ d ∈ t.head?, py.isname d = false) (i : ℕ) : ∃ j,
    Conditions.tokenize py text i (name.toList ++ t) = do
      let tokens ← Conditions.tokenize py text j t
      return (.ident name, i) :: tokens := by
  obtain ⟨c, cs, hname, ha, hd, hn⟩ := h
  have ⟨hb, hp⟩ := plain_of_word (.inr ha)
  simp only [List.mem_cons, List.not_mem_nil, or_false, not_or] at hp
  have hs : Predicates.symbol? (c :: (cs ++ t)) = none := symbol_eq_none <| by simp [hp]
  have hnum : ¬ (py.isdigit c ∨ c = '-' ∧ (cs ++ t).head?.any py.isdigit) := by simp [hd, hp]
  refine ⟨i + 1 + cs.length, ?_⟩
  rw [hname, List.cons_append, Conditions.tokenize, if_neg hb, hs]
  dsimp only
  rw [if_neg (by simp [hp]), if_neg (by simp [hp]), if_neg hnum, if_pos (.inl ha),
    takeWhile_append hn ht, List.drop_left, ← hname, String.ofList_toList]

theorem condition_scan_number (num : Numeral py)
    (ht : ∀ c ∈ t.head?, py.isdigit c = false ∧ c ≠ '.') :
    Conditions.scan_number py (num.text ++ t) = (num.text.length, num.fraction.isSome) := by
  rw [Numeral.text, List.append_assoc, List.append_assoc, Conditions.scan_number, num.head,
    List.drop_left]
  cases hf : num.fraction with
  | none    =>
    rw [Option.elim_none, List.nil_append, digits_append num.digit fun c hc => (ht c hc).left,
      ← List.append_assoc, List.drop_left' List.length_append, if_neg]
    · simp
    · exact fun he => (ht '.' he).right rfl
  | some cs =>
    have hdot : ∀ c ∈ ('.' :: (cs ++ t)).head?, py.isdigit c = false := by
      rintro c ⟨⟩
      rfl
    have hdrop : List.drop (num.sign.length + num.digits.length + 1)
        (num.sign ++ num.digits ++ '.' :: (cs ++ t)) = cs ++ t := by
      rw [← List.length_append, ← List.drop_drop, List.drop_left]
      rfl
    rw [Option.elim_some, List.cons_append, digits_append num.digit hdot, ← List.append_assoc,
      List.drop_left' List.length_append, List.head?_cons, if_pos rfl, hdrop,
      digits_append (num.decimal cs hf) fun c hc => (ht c hc).left]
    simp
    omega

theorem lexes_number (num : Numeral py) {value : Json}
    (hv : Conditions.read_number py num.text num.fraction.isSome = .ok value)
    (ht : ∀ c ∈ t.head?, py.isdigit c = false ∧ c ≠ '.') (i : ℕ) :
    Conditions.tokenize py text i (num.text ++ t) = do
      let tokens ← Conditions.tokenize py text (i + num.text.length) t
      return (.literal value, i) :: tokens := by
  have hscan := condition_scan_number num ht
  obtain ⟨c, cs, hc, hb, hp, hd⟩ := num.cons
  simp only [List.mem_cons, List.not_mem_nil, or_false, not_or] at hp
  have hs : Predicates.symbol? (c :: (cs ++ t)) = none := symbol_eq_none <| by simp [hp]
  have hdigit : py.isdigit c ∨ c = '-' ∧ (cs ++ t).head?.any py.isdigit :=
    hd.imp_right fun h => ⟨h.left, h.right t⟩
  rw [hc] at hscan hv ⊢
  rw [List.cons_append] at hscan
  rw [List.cons_append, Conditions.tokenize, if_neg hb, hs]
  dsimp only
  rw [if_neg (by simp [hp]), if_neg (by simp [hp]), if_pos hdigit, hscan]
  dsimp only
  rw [← List.cons_append, List.take_left, hv, List.length_cons, Nat.add_sub_cancel, List.drop_left]
  rfl

theorem scan_plain {quote : Char} {start : ℕ} (hq : c ≠ quote) (hcs : cs ≠ [])
    (hn : c = '\\' → ∀ d ∈ cs.head?, Conditions.escapes.lookup d = none) :
    Conditions.scan_string text quote start (c :: cs) = do
      let (out, n) ← Conditions.scan_string text quote start cs
      return (c :: out, n + 1) := by
  obtain ⟨d, ds, rfl⟩ := List.exists_cons_of_ne_nil hcs
  rw [Conditions.scan_string, if_neg hq]
  dsimp only
  by_cases hc : c = '\\'
  · rw [if_pos hc, hn hc d rfl]
  · rw [if_neg hc]

theorem scan_escape {quote d : Char} {start : ℕ} (hq : '\\' ≠ quote)
    (hd : Conditions.escapes.lookup c = some d) :
    Conditions.scan_string text quote start ('\\' :: c :: cs) = do
      let (out, n) ← Conditions.scan_string text quote start cs
      return (d :: out, n + 2) := by
  rw [Conditions.scan_string, if_neg hq]
  dsimp only
  rw [if_pos rfl, hd]

theorem scan_plains {quote : Char} {start : ℕ} {ds : List Char}
    (hd : ∀ d ∈ ds, d ≠ quote ∧ d ≠ '\\') (hcs : cs ≠ []) :
    Conditions.scan_string text quote start (ds ++ cs) = do
      let (out, n) ← Conditions.scan_string text quote start cs
      return (ds ++ out, n + ds.length) := by
  induction ds with
  | nil          =>
    rw [List.nil_append]
    cases Conditions.scan_string text quote start cs <;> rfl
  | cons d ds ih =>
    have ⟨hq, hb⟩ := hd d (.head _)
    have hne : ds ++ cs ≠ [] := List.append_ne_nil_of_right_ne_nil _ hcs
    rw [List.cons_append, scan_plain hq hne fun hc => absurd hc hb,
      ih fun d hd' => hd d <| .tail _ hd']
    cases Conditions.scan_string text quote start cs with
    | error e => rfl
    | ok r    => simp [bind, Except.bind, pure, Except.pure, Nat.add_assoc]

theorem ne_of_isHex (h : Predicates.isHex c) : c ≠ '"' ∧ c ≠ '\'' ∧ c ≠ '\\' := by
  refine ⟨?_, ?_, ?_⟩ <;> rintro rfl <;> simp [Predicates.isHex] at h

-- What a condition reads of a piece.
theorem condition_scan_piece {quote : Char} {start : ℕ} {p : Piece} (hq : quote = '"' ∨ quote = '\'')
    (hp : p.Within quote) (hcs : cs ≠ []) :
    Conditions.scan_string text quote start (p.text ++ cs) = do
      let (out, n) ← Conditions.scan_string text quote start cs
      return (p.condition ++ out, n + p.text.length) := by
  have hb : '\\' ≠ quote := by rcases hq with rfl | rfl <;> decide
  have hraw (c : Char) (ds : List Char) (hc : Conditions.escapes.lookup c = none)
      (hd : ∀ d ∈ c :: ds, d ≠ quote ∧ d ≠ '\\') :
      Conditions.scan_string text quote start ('\\' :: c :: ds ++ cs) = do
        let (out, n) ← Conditions.scan_string text quote start cs
        return ('\\' :: c :: ds ++ out, n + ('\\' :: c :: ds).length) := by
    have hne : c :: ds ++ cs ≠ [] := List.cons_ne_nil _ _
    rw [List.cons_append, scan_plain hb hne fun _ d hd => by cases hd; exact hc,
      scan_plains hd hcs]
    cases Conditions.scan_string text quote start cs with
    | error e => rfl
    | ok r    => simp [bind, Except.bind, pure, Except.pure, Nat.add_assoc]
  cases p with
  | plain c             => exact scan_plain hp.left hcs fun hc => absurd hc hp.right
  | escape c d          =>
    have hd : Conditions.escapes.lookup c = some d := by
      simp only [Piece.Within, Conditions.escapes, List.mem_cons, List.not_mem_nil, or_false,
        Prod.mk.injEq] at hp
      rcases hp with ⟨rfl, rfl⟩ | ⟨rfl, rfl⟩ | ⟨rfl, rfl⟩ | ⟨rfl, rfl⟩ | ⟨rfl, rfl⟩ | ⟨rfl, rfl⟩ <;>
        rfl
    exact scan_escape hb hd
  | control c d         =>
    simp only [Piece.Within, List.mem_cons, List.not_mem_nil, or_false, Prod.mk.injEq] at hp
    have hc : c = 'b' ∨ c = 'f' := hp.imp And.left And.left
    have hl : Conditions.escapes.lookup c = none := by rcases hc with rfl | rfl <;> rfl
    refine hraw c [] hl fun d hd => ?_
    rw [List.mem_singleton.mp hd]
    rcases hq with rfl | rfl <;> rcases hc with rfl | rfl <;> decide
  | unicode h₁ h₂ h₃ h₄ =>
    refine hraw 'u' [h₁, h₂, h₃, h₄] rfl fun d hd => ?_
    cases hd with
    | head      => rcases hq with rfl | rfl <;> decide
    | tail _ hd =>
      have ⟨hdouble, hsingle, hback⟩ := ne_of_isHex <| List.all_eq_true.mp hp d hd
      rcases hq with rfl | rfl
      · exact ⟨hdouble, hback⟩
      · exact ⟨hsingle, hback⟩

theorem condition_scan_string {quote : Char} {start : ℕ} {pieces : List Piece}
    (hq : quote = '"' ∨ quote = '\'') (hp : ∀ p ∈ pieces, p.Within quote) :
    Conditions.scan_string text quote start (pieces.flatMap Piece.text ++ quote :: t) =
      .ok (pieces.flatMap Piece.condition, (pieces.flatMap Piece.text).length + 1) := by
  induction pieces with
  | nil          =>
    rw [List.flatMap_nil, List.nil_append]
    cases t <;> exact if_pos rfl
  | cons p ps ih =>
    have hne : ps.flatMap Piece.text ++ quote :: t ≠ [] :=
      List.append_ne_nil_of_right_ne_nil _ <| List.cons_ne_nil _ _
    rw [List.flatMap_cons, List.flatMap_cons, List.append_assoc,
      condition_scan_piece hq (hp p <| .head _) hne, ih fun p hm => hp p <| .tail _ hm]
    simp [bind, Except.bind, pure, Except.pure]
    omega

theorem lexes_string {quote : Char} {pieces : List Piece} (hq : quote = '"' ∨ quote = '\'')
    (hp : ∀ p ∈ pieces, p.Within quote) (i : ℕ) :
    Conditions.tokenize py text i (quote :: pieces.flatMap Piece.text ++ [quote] ++ t) = do
      let tokens ← Conditions.tokenize py text
        (i + 1 + ((pieces.flatMap Piece.text).length + 1)) t
      return (.literal (.str (String.ofList (pieces.flatMap Piece.condition))), i) :: tokens := by
  have hb : quote ∉ blanks := by rcases hq with rfl | rfl <;> simp
  have hparen : ¬ (quote = '(' ∨ quote = ')') := by rcases hq with rfl | rfl <;> decide
  have hs (cs : List Char) : Predicates.symbol? (quote :: cs) = none := by
    rcases hq with rfl | rfl <;> rfl
  have hdrop : List.drop ((pieces.flatMap Piece.text).length + 1)
      (pieces.flatMap Piece.text ++ quote :: t) = t := by
    rw [← List.drop_drop, List.drop_left]
    rfl
  rw [List.append_assoc, List.cons_append, List.cons_append, List.nil_append, Conditions.tokenize,
    if_neg hb, hs]
  dsimp only
  rw [if_neg hparen, if_pos hq, condition_scan_string hq hp]
  dsimp only [bind, Except.bind]
  rw [hdrop]

theorem condition_lexes (hl : l.Valid py) (ht : l.Ends py t) : Lexes py text l t := by
  cases l with
  | symbol s            => exact lexes_symbol ht
  | lparen              => exact fun i => ⟨i + 1, lexes_paren (.inl rfl) i⟩
  | rparen              => exact fun i => ⟨i + 1, lexes_paren (.inr rfl) i⟩
  | string quote pieces => exact fun i => ⟨_, lexes_string hl.left hl.right i⟩
  | path                => exact lexes_name named_path.left fun d hd => (ht d hd).left
  | number raw value    =>
    obtain ⟨num, rfl, hv⟩ := hl
    exact fun i => ⟨_, lexes_number num hv (fun c hc => (ht c hc).right) i⟩
  | constant name value => exact lexes_name (named_constant hl) fun d hd => (ht d hd).left

theorem condition_tokens (text : List Char) {x : String} {ls : List Lexeme} {t t' : List Char}
    (h : Spells py x ls t t') (i : ℕ) : ∃ ts, Conditions.tokenize py text i t = .ok ts ∧
      ts.map Prod.fst = ls.map Lexeme.condition_token ++ [.eof] := by
  induction h generalizing i with
  | nil            =>
    refine ⟨[(.eof, i)], ?_, rfl⟩
    rw [Conditions.tokenize]
  | blank hc _ ih  =>
    obtain ⟨ts, hts, hls⟩ := ih (i + 1)
    refine ⟨ts, ?_, hls⟩
    rw [Conditions.tokenize, if_pos hc, hts]
  | lexeme hl ht _ _ ih =>
    obtain ⟨j, hj⟩ := condition_lexes hl ht i
    obtain ⟨ts, hts, hls⟩ := ih j
    refine ⟨_, by rw [hj, hts]; rfl, ?_⟩
    rw [List.map_cons, hls]
    rfl

end Conditions

section Predicates

variable {py : Python} {text t cs : List Char} {c : Char} {l : Lexeme} {x : String}

theorem predicate_op {s : Symbol} {n : ℕ} (hb : c ∉ blanks)
    (hs : Predicates.symbol? (c :: cs) = some (s, n)) (i : ℕ) :
    Predicates.tokenize py text i (c :: cs) = do
      let tokens ← Predicates.tokenize py text (i + n) (cs.drop (n - 1))
      return (.op s, i) :: tokens := by
  rw [Predicates.tokenize, if_neg hb, hs]

theorem predicate_dot (i : ℕ) :
    Predicates.tokenize py text i ('.' :: t) = do
      let tokens ← Predicates.tokenize py text (i + 1) t
      return (.dot, i) :: tokens := by
  have hs : Predicates.symbol? ('.' :: t) = none := rfl
  rw [Predicates.tokenize, if_neg (by simp), hs]
  rfl

theorem predicate_paren (i : ℕ) :
    Predicates.tokenize py text i ('(' :: t) = (do
      let tokens ← Predicates.tokenize py text (i + 1) t
      return (.lparen, i) :: tokens) ∧
    Predicates.tokenize py text i (')' :: t) = do
      let tokens ← Predicates.tokenize py text (i + 1) t
      return (.rparen, i) :: tokens := by
  have hs : Predicates.symbol? ('(' :: t) = none ∧ Predicates.symbol? (')' :: t) = none := ⟨rfl, rfl⟩
  constructor
  · rw [Predicates.tokenize, if_neg (by simp), hs.left]
    rfl
  · rw [Predicates.tokenize, if_neg (by simp), hs.right]
    rfl

theorem predicate_name {name : String} (h : Named py name)
    (ht : ∀ d ∈ t.head?, py.isname d = false) (i : ℕ) : ∃ j,
    Predicates.tokenize py text i (name.toList ++ t) = do
      let tokens ← Predicates.tokenize py text j t
      return (.ident name, i) :: tokens := by
  obtain ⟨c, cs, hname, ha, hd, hn⟩ := h
  have ⟨hb, hp⟩ := plain_of_word (.inr ha)
  simp only [List.mem_cons, List.not_mem_nil, or_false, not_or] at hp
  have hs : Predicates.symbol? (c :: (cs ++ t)) = none := symbol_eq_none <| by simp [hp]
  have hnum : ¬ (py.isdigit c ∨ c = '-' ∧ (cs ++ t).head?.any py.isdigit) := by simp [hd, hp]
  refine ⟨i + 1 + cs.length, ?_⟩
  rw [hname, List.cons_append, Predicates.tokenize, if_neg hb, hs]
  dsimp only
  rw [if_neg (by simp [hp]), if_neg (by simp [hp]), if_neg (by simp [hp]), if_neg (by simp [hp]),
    if_neg hnum, if_pos (.inl ha), takeWhile_append hn ht, List.drop_left, ← hname,
    String.ofList_toList]

theorem predicate_scan_number (num : Numeral py)
    (ht : ∀ c ∈ t.head?, py.isname c = false ∧ py.isdigit c = false ∧ c ≠ '.') :
    Predicates.scan_number py (num.text ++ t) = (num.text.length, num.fraction.isSome) := by
  have hscan := condition_scan_number num fun c hc => (ht c hc).right
  have hexp : t.head? ∉ [some 'e', some 'E'] := by
    intro h
    simp only [List.mem_cons, List.not_mem_nil, or_false] at h
    rcases h with h | h
    · exact absurd (ht 'e' h).left (by simp [Python.isname, Python.isalnum])
    · exact absurd (ht 'E' h).left (by simp [Python.isname, Python.isalnum])
  have heq : ∀ r, Conditions.scan_number py (num.text ++ t) = r →
      ((num.text ++ t).drop r.fst).head? ∉ [some 'e', some 'E'] →
      Predicates.scan_number py (num.text ++ t) = r := by
    rintro r rfl hr
    exact if_neg hr
  exact heq _ hscan <| by rwa [List.drop_left]

theorem read_number_eq {raw : List Char} {is_float : Bool} {value : Json}
    (h : Conditions.read_number py raw is_float = .ok value) :
    Predicates.read_number py raw is_float = .ok value := by
  cases is_float with
  | true  =>
    cases hf : py.float raw with
    | error e => simp [Conditions.read_number, hf, Except.map, Except.mapError] at h
    | ok v    =>
      simpa [Conditions.read_number, Predicates.read_number, hf, Except.map, Except.mapError] using h
  | false =>
    cases hf : py.int raw with
    | error e => simp [Conditions.read_number, hf, Except.map, Except.mapError] at h
    | ok v    =>
      simpa [Conditions.read_number, Predicates.read_number, hf, Except.map, Except.mapError] using h

theorem predicate_number (num : Numeral py) {value : Json}
    (hv : Conditions.read_number py num.text num.fraction.isSome = .ok value)
    (ht : ∀ c ∈ t.head?, py.isname c = false ∧ py.isdigit c = false ∧ c ≠ '.') (i : ℕ) :
    Predicates.tokenize py text i (num.text ++ t) = do
      let tokens ← Predicates.tokenize py text (i + num.text.length) t
      return (.number value, i) :: tokens := by
  have hscan := predicate_scan_number num ht
  replace hv := read_number_eq hv
  obtain ⟨c, cs, hc, hb, hp, hd⟩ := num.cons
  simp only [List.mem_cons, List.not_mem_nil, or_false, not_or] at hp
  have hs : Predicates.symbol? (c :: (cs ++ t)) = none := symbol_eq_none <| by simp [hp]
  have hdigit : py.isdigit c ∨ c = '-' ∧ (cs ++ t).head?.any py.isdigit :=
    hd.imp_right fun h => ⟨h.left, h.right t⟩
  rw [hc] at hscan hv ⊢
  rw [List.cons_append] at hscan
  rw [List.cons_append, Predicates.tokenize, if_neg hb, hs]
  dsimp only
  rw [if_neg (by simp [hp]), if_neg (by simp [hp]), if_neg (by simp [hp]), if_neg (by simp [hp]),
    if_pos hdigit, hscan]
  dsimp only
  rw [← List.cons_append, List.take_left, hv, List.length_cons, Nat.add_sub_cancel, List.drop_left]
  rfl

theorem predicate_scan_escape {quote d : Char} {start i : ℕ} (hq : '\\' ≠ quote)
    (hd : (c, d) ∈ Predicates.escapes) :
    Predicates.scan_string text quote start i ('\\' :: c :: cs) = do
      let (out, n) ← Predicates.scan_string text quote start (i + 2) cs
      return (d :: out, n + 2) := by
  have hc : c ≠ 'u' ∧ Predicates.escapes.lookup c = some d := by
    simp only [Predicates.escapes, List.mem_cons, List.not_mem_nil, or_false, Prod.mk.injEq] at hd
    rcases hd with ⟨rfl, rfl⟩ | ⟨rfl, rfl⟩ | ⟨rfl, rfl⟩ | ⟨rfl, rfl⟩ | ⟨rfl, rfl⟩ | ⟨rfl, rfl⟩ |
      ⟨rfl, rfl⟩ | ⟨rfl, rfl⟩ <;> exact ⟨by decide, rfl⟩
  rw [Predicates.scan_string.eq_def]
  dsimp only
  rw [if_neg hq, if_pos rfl, if_neg hc.left, hc.right]

-- What a predicate reads of a piece.
theorem predicate_scan_piece {quote : Char} {start i : ℕ} {p : Piece}
    (hq : quote = '"' ∨ quote = '\'') (hp : p.Within quote) :
    Predicates.scan_string text quote start i (p.text ++ cs) = do
      let (out, n) ← Predicates.scan_string text quote start (i + p.text.length) cs
      return (p.predicate ++ out, n + p.text.length) := by
  have hb : '\\' ≠ quote := by rcases hq with rfl | rfl <;> decide
  cases p with
  | plain c             =>
    rw [Piece.text, List.cons_append, List.nil_append, Predicates.scan_string.eq_def]
    dsimp only
    rw [if_neg hp.left, if_neg hp.right]
    rfl
  | escape c d          =>
    refine predicate_scan_escape hb ?_
    simp only [Piece.Within, Conditions.escapes, List.mem_cons, List.not_mem_nil, or_false,
      Prod.mk.injEq] at hp
    rcases hp with ⟨rfl, rfl⟩ | ⟨rfl, rfl⟩ | ⟨rfl, rfl⟩ | ⟨rfl, rfl⟩ | ⟨rfl, rfl⟩ | ⟨rfl, rfl⟩ <;>
      simp [Predicates.escapes]
  | control c d         =>
    refine predicate_scan_escape hb ?_
    simp only [Piece.Within, List.mem_cons, List.not_mem_nil, or_false, Prod.mk.injEq] at hp
    rcases hp with ⟨rfl, rfl⟩ | ⟨rfl, rfl⟩ <;> simp [Predicates.escapes]
  | unicode h₁ h₂ h₃ h₄ =>
    rw [Piece.text, Predicates.scan_string.eq_def]
    dsimp only [List.cons_append, List.nil_append]
    have hx : [h₁, h₂, h₃, h₄].all Predicates.isHex = true := hp
    rw [if_neg hb, if_pos rfl, if_pos rfl, if_pos hx]
    rfl

theorem predicate_scan_string {quote : Char} {start i : ℕ} {pieces : List Piece}
    (hq : quote = '"' ∨ quote = '\'') (hp : ∀ p ∈ pieces, p.Within quote) :
    Predicates.scan_string text quote start i (pieces.flatMap Piece.text ++ quote :: t) =
      .ok (pieces.flatMap Piece.predicate, (pieces.flatMap Piece.text).length + 1) := by
  induction pieces generalizing i with
  | nil          =>
    rw [List.flatMap_nil, List.nil_append, Predicates.scan_string.eq_def]
    exact if_pos rfl
  | cons p ps ih =>
    rw [List.flatMap_cons, List.flatMap_cons, List.append_assoc,
      predicate_scan_piece hq (hp p <| .head _), ih fun p hm => hp p <| .tail _ hm]
    simp [bind, Except.bind, pure, Except.pure]
    omega

theorem predicate_string {quote : Char} {pieces : List Piece} (hq : quote = '"' ∨ quote = '\'')
    (hp : ∀ p ∈ pieces, p.Within quote) (i : ℕ) :
    Predicates.tokenize py text i (quote :: pieces.flatMap Piece.text ++ [quote] ++ t) = do
      let tokens ← Predicates.tokenize py text
        (i + 1 + ((pieces.flatMap Piece.text).length + 1)) t
      return (.string (String.ofList (pieces.flatMap Piece.predicate)), i) :: tokens := by
  have hb : quote ∉ blanks := by rcases hq with rfl | rfl <;> simp
  have hparen : quote ≠ '(' ∧ quote ≠ ')' ∧ quote ≠ '.' := by rcases hq with rfl | rfl <;> decide
  have hs (cs : List Char) : Predicates.symbol? (quote :: cs) = none := by
    rcases hq with rfl | rfl <;> rfl
  have hdrop : List.drop ((pieces.flatMap Piece.text).length + 1)
      (pieces.flatMap Piece.text ++ quote :: t) = t := by
    rw [← List.drop_drop, List.drop_left]
    rfl
  rw [List.append_assoc, List.cons_append, List.cons_append, List.nil_append, Predicates.tokenize,
    if_neg hb, hs]
  dsimp only
  rw [if_neg hparen.left, if_neg hparen.right.left, if_neg hparen.right.right, if_pos hq,
    predicate_scan_string hq hp]
  dsimp only [bind, Except.bind]
  rw [hdrop]

-- A predicate's lexer reads the lexeme off the front of a text.
theorem predicate_lexes (hx : Name py x) (hl : l.Valid py) (ht : l.Ends py t) (i : ℕ) :
    ∃ toks j, toks.map Prod.fst = l.predicate_tokens x ∧
      Predicates.tokenize py text i (l.predicate_text x ++ t) = do
        let tokens ← Predicates.tokenize py text j t
        return toks ++ tokens := by
  cases l with
  | symbol s            =>
    refine ⟨[(.op s, i)], i + (Lexeme.symbol_text s).length, rfl, ?_⟩
    have hs := symbol_eq_some ht
    cases s <;> exact predicate_op (by simp) hs i
  | lparen              => exact ⟨[(.lparen, i)], i + 1, rfl, (predicate_paren i).left⟩
  | rparen              => exact ⟨[(.rparen, i)], i + 1, rfl, (predicate_paren i).right⟩
  | string quote pieces => exact ⟨[_], _, rfl, predicate_string hl.left hl.right i⟩
  | number raw value    =>
    obtain ⟨num, rfl, hv⟩ := hl
    exact ⟨[_], _, rfl, predicate_number num hv ht i⟩
  | constant name value =>
    obtain ⟨j, hj⟩ := predicate_name (named_constant hl) (fun d hd => (ht d hd).left) i
    exact ⟨[(.ident name, i)], j, rfl, hj⟩
  | path                =>
    have hname : py.isname '.' = false := rfl
    have hdot : ∀ d ∈ ('.' :: (x.toList ++ t)).head?, py.isname d = false := by
      intro d hd
      rwa [← Option.some.inj hd]
    obtain ⟨j, hj⟩ := predicate_name named_path.right hdot i
    obtain ⟨k, hk⟩ := predicate_name hx.named (fun d hd => (ht d hd).left) (j + 1)
    refine ⟨[(.ident "payload", i), (.dot, j), (.ident x, j + 1)], k, rfl, ?_⟩
    have hprefix : "payload.".toList = "payload".toList ++ ['.'] := by simp
    have htext : Lexeme.path.predicate_text x = "payload.".toList ++ x.toList := rfl
    rw [htext, hprefix, List.append_assoc, List.append_assoc, List.singleton_append, hj,
      predicate_dot, hk]
    simp only [bind_assoc, pure_bind, List.cons_append, List.nil_append]

theorem predicate_tokens (text : List Char) (hx : Name py x) {ls : List Lexeme} {t t' : List Char}
    (h : Spells py x ls t t') (i : ℕ) : ∃ ts, Predicates.tokenize py text i t' = .ok ts ∧
      ts.map Prod.fst = ls.flatMap (Lexeme.predicate_tokens x) ++ [.eof] := by
  induction h generalizing i with
  | nil            =>
    refine ⟨[(.eof, i)], ?_, rfl⟩
    rw [Predicates.tokenize]
  | blank hc _ ih  =>
    obtain ⟨ts, hts, hls⟩ := ih (i + 1)
    refine ⟨ts, ?_, hls⟩
    rw [Predicates.tokenize, if_pos hc, hts]
  | lexeme hl _ ht _ ih =>
    obtain ⟨toks, j, htoks, hj⟩ := predicate_lexes hx hl ht i
    obtain ⟨ts, hts, hls⟩ := ih j
    refine ⟨_, by rw [hj, hts]; rfl, ?_⟩
    rw [List.map_append, htoks, hls, List.flatMap_cons, List.append_assoc]

end Predicates

end Agreement
