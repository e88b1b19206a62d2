import Traceline.Evaluators.Selector

namespace Evaluators

-- The text of a path, without the `$`: `.key`, `[N]`, `.*` and `[*]`, in any order.
inductive Spelled (py : Python) : List Char → List SelectorToken → Prop
  | nil : Spelled py [] []
  | key {word text tokens} : word ≠ [] → (∀ c ∈ word, py.isname c) → Spelled py text tokens →
    Spelled py ('.' :: (word ++ text)) (.key (String.ofList word) :: tokens)
  | index {pad digits pad' text n tokens} :
    (∀ c ∈ pad, py.isspace c) → (∀ c ∈ pad', py.isspace c) →
    digits ≠ [] → (∀ c ∈ digits, py.isdigit c ∧ ¬py.isspace c) → py.int digits = .ok (n : ℕ) →
    Spelled py text tokens →
    Spelled py ('[' :: (pad ++ digits ++ pad' ++ ']' :: text)) (.index n :: tokens)
  | every {text tokens} : Spelled py text tokens →
    Spelled py ('.' :: '*' :: text) (.wildcard :: tokens)
  | all {pad pad' text tokens} : (∀ c ∈ pad, py.isspace c) → (∀ c ∈ pad', py.isspace c) →
    Spelled py text tokens →
    Spelled py ('[' :: (pad ++ ['*'] ++ pad' ++ ']' :: text)) (.wildcard :: tokens)

variable {py : Python} {whole cs : List Char} {tokens pre post : List SelectorToken}
  {token : SelectorToken} {doc x : Json} {found : Option Json} {l : List Json} {i k : ℕ}

def children? : Json → Option (List Json)
  | .arr xs  => some xs
  | .obj kvs => some (kvs.map Prod.snd)
  | _        => none

def children (j : Json) : List Json :=
  (children? j).getD []

-- The nodes that one segment selects from a node.
def nodes : SelectorToken → Json → List Json
  | .key k,    .obj kvs => (kvs.lookup k).toList
  | .index n,  .arr xs  => xs[n]?.toList
  | .wildcard, j        => children j
  | _,         _        => []

-- A segment is applied to each node of the list that those before it have selected.
def nodelist (tokens : List SelectorToken) (l : List Json) : List Json :=
  tokens.foldl (fun l token => l.flatMap (nodes token)) l

-- The list of the selected nodes where a wildcard occurs, else the single node if there is one.
def jsonpath (tokens : List SelectorToken) (doc : Json) : Option Json :=
  if .wildcard ∈ tokens then some (.arr (nodelist tokens [doc])) else (nodelist tokens [doc]).head?

def select (tokens : List SelectorToken) (found : Option Json) : Option Json :=
  tokens.foldl (fun value token => value.bind (select_token · token)) found

theorem select_append : select (pre ++ post) found = select post (select pre found) :=
  List.foldl_append

theorem nodelist_append : nodelist (pre ++ post) l = nodelist post (nodelist pre l) :=
  List.foldl_append

theorem select_none : select tokens none = none := by
  induction tokens with
  | nil                => rfl
  | cons token tokens ih => exact ih

theorem nodelist_nil : nodelist tokens [] = [] := by
  induction tokens with
  | nil                => rfl
  | cons token tokens ih => exact ih

theorem nodes_singular (h : token ≠ .wildcard) :
    nodes token doc = (select_token doc token).toList := by
  cases token with
  | key k    => cases doc <;> rfl
  | index n  => cases doc <;> rfl
  | wildcard => cases h rfl

-- Without a wildcard a path selects one node or none.
theorem nodelist_singular (h : .wildcard ∉ tokens) :
    nodelist tokens found.toList = (select tokens found).toList := by
  induction tokens generalizing found with
  | nil                  => rfl
  | cons token tokens ih =>
    rw [List.mem_cons, not_or] at h
    have hstep : found.toList.flatMap (nodes token) =
        (found.bind (select_token · token)).toList := by
      cases found with
      | none   => rfl
      | some x =>
        rw [Option.toList_some, List.flatMap_singleton]
        exact nodes_singular <| Ne.symm h.left
    exact (congrArg (nodelist tokens) hstep).trans <| ih h.right

theorem select_wildcard : select_token x .wildcard = (children? x).map Json.arr := by
  cases x <;> rfl

theorem nodelist_wildcard (h : children? x = some l) :
    nodelist (.wildcard :: post) [x] = nodelist post l := by
  have hl : [x].flatMap (nodes .wildcard) = l := by
    rw [List.flatMap_singleton, nodes, children, h, Option.getD_some]
  exact congrArg (nodelist post) hl

theorem select_wildcards : select (List.replicate k .wildcard) (some (.arr l)) = some (.arr l) := by
  induction k with
  | zero      => rfl
  | succ k ih => exact ih

noncomputable def weight (l : List Json) : ℕ :=
  (l.map sizeOf).sum

theorem weight_elements : weight l < sizeOf l := by
  induction l with
  | nil         => simp [weight]
  | cons x l ih =>
    rw [weight] at ih ⊢
    rw [List.map_cons, List.sum_cons, List.cons.sizeOf_spec]
    omega

theorem weight_values {kvs : List (String × Json)} : weight (kvs.map Prod.snd) < sizeOf kvs := by
  induction kvs with
  | nil            => simp [weight]
  | cons kv kvs ih =>
    rw [weight] at ih ⊢
    rw [List.map_cons, List.map_cons, List.sum_cons, List.cons.sizeOf_spec, Prod.mk.sizeOf_spec]
    omega

theorem weight_children : weight (children x) < sizeOf x := by
  cases x with
  | arr xs  =>
    rw [Json.arr.sizeOf_spec]
    exact Nat.lt_add_left 1 weight_elements
  | obj kvs =>
    rw [Json.obj.sizeOf_spec]
    exact Nat.lt_add_left 1 weight_values
  | _       => simp [weight, children, children?]

theorem weight_flatMap : weight (l.flatMap children) + l.length ≤ weight l := by
  induction l with
  | nil       => rfl
  | cons x l ih =>
    have hx := weight_children (x := x)
    simp only [weight, List.flatMap_cons, List.map_append, List.sum_append, List.map_cons,
      List.sum_cons, List.length_cons] at ih hx ⊢
    omega

theorem weight_wildcards : weight (nodelist (List.replicate k .wildcard) l) ≤ weight l := by
  induction k generalizing l with
  | zero      => exact Nat.le_refl _
  | succ k ih => exact ih.trans <| (Nat.le_add_right _ _).trans weight_flatMap

-- The descendants of some values are never those values.
theorem nodelist_wildcards_ne (hk : k ≠ 0) (hl : l ≠ []) :
    nodelist (List.replicate k .wildcard) l ≠ l := by
  intro h
  obtain ⟨k, rfl⟩ := Nat.exists_eq_succ_of_ne_zero hk
  have hle : weight l ≤ weight (l.flatMap children) := by
    calc weight l
      _ = weight (nodelist (List.replicate (k + 1) .wildcard) l)           := by rw [h]
      _ = weight (nodelist (List.replicate k .wildcard) (l.flatMap children)) := rfl
      _ ≤ weight (l.flatMap children)                                      := weight_wildcards
  have hlength := List.length_pos_of_ne_nil hl
  have hflat := weight_flatMap (l := l)
  omega

-- After the first wildcard, which has selected the values of `l`: there is nothing more; or there
-- are only wildcards, and nothing below them; or the first other segment is an index, and what the
-- path finds in that one value happens to be the list of all nodes.
def Coincides (post : List SelectorToken) (l : List Json) : Prop :=
  post = [] ∨ (l = [] ∧ ∀ token ∈ post, token = .wildcard) ∨
    ∃ k n rest x, post = List.replicate k .wildcard ++ .index n :: rest ∧ l[n]? = some x ∧
      select rest (some x) = some (.arr (nodelist post l))

def Conforms (tokens : List SelectorToken) (doc : Json) : Prop :=
  .wildcard ∉ tokens ∨ ∃ pre post x l, tokens = pre ++ .wildcard :: post ∧ .wildcard ∉ pre ∧
    nodelist pre [doc] = [x] ∧ children? x = some l ∧ Coincides post l

theorem exists_wildcards : ∃ k rest, tokens = List.replicate k .wildcard ++ rest ∧
    rest.head? ≠ some .wildcard := by
  induction tokens with
  | nil                  => exact ⟨0, [], rfl, nofun⟩
  | cons token tokens ih =>
    by_cases h : token = .wildcard
    case pos =>
      obtain ⟨k, rest, htokens, hhead⟩ := ih
      exact ⟨k + 1, rest, by rw [h, htokens, List.replicate_succ, List.cons_append], hhead⟩
    case neg => exact ⟨0, token :: tokens, rfl, by simpa using h⟩

theorem nodelist_of_all_wildcards (h : ∀ token ∈ post, token = .wildcard) :
    post = List.replicate post.length .wildcard :=
  List.eq_replicate_iff.mpr ⟨rfl, h⟩

theorem coincides_iff :
    select post (some (.arr l)) = some (.arr (nodelist post l)) ↔ Coincides post l := by
  constructor
  case mp  =>
    intro h
    obtain ⟨k, rest, rfl, hhead⟩ := @exists_wildcards post
    have hselect : select (List.replicate k .wildcard ++ rest) (some (.arr l)) =
        select rest (some (.arr l)) := by rw [select_append, select_wildcards]
    cases rest with
    | nil             =>
      rw [List.append_nil, select_wildcards, Option.some.injEq, Json.arr.injEq] at h
      rw [List.append_nil]
      by_cases hk : k = 0
      case pos => exact .inl <| by rw [hk, List.replicate_zero]
      case neg =>
        have hl : l = [] := by
          by_contra hl
          exact nodelist_wildcards_ne hk hl h.symm
        exact .inr <| .inl ⟨hl, fun _ => List.eq_of_mem_replicate⟩
    | cons token rest =>
      cases token with
      | wildcard => cases hhead rfl
      | key name => 
        rw [hselect] at h
        cases (@select_none rest).symm.trans h
      | index n  =>
        have hstep : select (.index n :: rest) (some (.arr l)) = select rest l[n]? := rfl
        cases hx : l[n]? with
        | none   =>
          rw [hselect, hstep, hx, select_none] at h
          cases h
        | some x =>
          rw [hselect, hstep, hx] at h
          exact .inr <| .inr ⟨k, n, rest, x, rfl, hx, h⟩
  case mpr =>
    rintro (rfl | ⟨rfl, hall⟩ | ⟨k, n, rest, x, rfl, hx, h⟩)
    · rfl
    · rw [nodelist_nil, nodelist_of_all_wildcards hall, select_wildcards]
    · rw [select_append, select_wildcards, ← h]
      exact congrArg (select rest) hx

theorem exists_first (h : .wildcard ∈ tokens) :
    ∃ pre post, tokens = pre ++ .wildcard :: post ∧ .wildcard ∉ pre := by
  obtain ⟨pre, post, rfl, hpre⟩ := List.eq_append_cons_of_mem h
  exact ⟨pre, post, rfl, hpre⟩

-- What stands before the first wildcard selects at most one node, and the wildcard its children.
theorem select_first (hpre : .wildcard ∉ pre) :
    select (pre ++ .wildcard :: post) (some doc) = jsonpath (pre ++ .wildcard :: post) doc ↔
      ∃ x l, nodelist pre [doc] = [x] ∧ children? x = some l ∧ Coincides post l := by
  have hmem : .wildcard ∈ pre ++ .wildcard :: post := by simp
  have hone : nodelist pre [doc] = (select pre (some doc)).toList :=
    @nodelist_singular pre (some doc) hpre
  rw [jsonpath, if_pos hmem, nodelist_append, select_append, hone]
  cases select pre (some doc) with
  | none   => simp [select_none]
  | some x =>
    have hstep : select (.wildcard :: post) (some x) = select post (select_token x .wildcard) := rfl
    rw [hstep, select_wildcard, Option.toList_some]
    cases hx : children? x with
    | none   => simp [select_none, hx]
    | some l => simp [nodelist_wildcard hx, coincides_iff, hx]

theorem select_iff : select tokens (some doc) = jsonpath tokens doc ↔ Conforms tokens doc := by
  by_cases h : .wildcard ∈ tokens
  case neg =>
    have hone : nodelist tokens [doc] = (select tokens (some doc)).toList :=
      @nodelist_singular tokens (some doc) h
    have : select tokens (some doc) = jsonpath tokens doc := by
      rw [jsonpath, if_neg h, hone, Option.head?_toList]
    exact iff_of_true this <| .inl h
  case pos =>
    constructor
    case mp  =>
      obtain ⟨pre, post, rfl, hpre⟩ := exists_first h
      intro heq
      obtain ⟨x, l, hx, hl, hc⟩ := (select_first hpre).mp heq
      exact .inr ⟨pre, post, x, l, rfl, hpre, hx, hl, hc⟩
    case mpr =>
      rintro (hn | ⟨pre, post, x, l, rfl, hpre, hx, hl, hc⟩)
      · exact absurd h hn
      · exact (select_first hpre).mpr ⟨x, l, hx, hl, hc⟩

theorem Spelled.head (h : Spelled py cs tokens) : ∀ c ∈ cs.head?, c = '.' ∨ c = '[' := by
  cases h <;> simp

variable {pad inner pad' text : List Char}

-- What stands between brackets is read without the space around it.
theorem bracket_eq (hpad : ∀ c ∈ pad, py.isspace c) (hpad' : ∀ c ∈ pad', py.isspace c)
    (hne : inner ≠ []) (hinner : ∀ c ∈ inner, ¬py.isspace c ∧ c ≠ ']') :
    let cs := pad ++ inner ++ pad' ++ ']' :: text
    let inside := cs.takeWhile (· ≠ ']')
    ']' ∈ cs ∧ Lines.strip py.isspace inside = inner ∧ cs.drop (inside.length + 1) = text := by
  have hclose : ∀ c, py.isspace c → c ≠ ']' := by
    rintro c hc rfl
    cases hc
  have hinside : (pad ++ inner ++ pad' ++ ']' :: text).takeWhile (· ≠ ']') =
      pad ++ inner ++ pad' := by
    refine Lines.takeWhile_append (fun c hc => decide_eq_true ?_) (by simp)
    simp only [List.mem_append] at hc
    rcases hc with (hc | hc) | hc
    · exact hclose c <| hpad c hc
    · exact (hinner c hc).right
    · exact hclose c <| hpad' c hc
  refine ⟨by simp, ?_, ?_⟩
  · rw [hinside]
    exact Lines.strip_append hpad ⟨fun c hc => (hinner c <| List.mem_of_mem_head? hc).left,
      fun c hc => (hinner c <| List.mem_of_mem_getLast? hc).left⟩ hpad' hne
  · rw [hinside, ← List.drop_drop, List.drop_left]
    rfl

theorem selector_tokens_of_spelled (h : Spelled py cs tokens) :
    selector_tokens py whole i cs = .ok tokens := by
  induction h generalizing i with
  | nil                               => rw [selector_tokens]
  | @key word text tokens hne hword ht ih =>
    obtain ⟨c, word, rfl⟩ := List.exists_cons_of_ne_nil hne
    have hhead : c ≠ '.' ∧ c ≠ '*' := by
      have hc := hword c <| .head _
      constructor <;> rintro rfl <;> cases hc
    have hstop : ∀ d ∈ text.head?, ¬py.isname d := by
      intro d hd
      rcases ht.head d hd with rfl | rfl <;> exact Bool.false_ne_true
    rw [selector_tokens, if_pos rfl, if_neg (by simpa using hhead.left),
      if_neg (by simpa using hhead.right), Lines.takeWhile_append hword hstop,
      Lines.dropWhile_append hword hstop, if_neg hne, ih]
    rfl
  | @index pad digits pad' text n tokens hpad hpad' hne hdigits hn _ ih =>
    have hinner : ∀ c ∈ digits, ¬py.isspace c ∧ c ≠ ']' := by
      intro c hc
      refine ⟨(hdigits c hc).right, ?_⟩
      rintro rfl
      cases (hdigits _ hc).left
    have hstar : digits ≠ ['*'] := by
      rintro rfl
      cases (hdigits '*' <| .head _).left
    have hall : digits ≠ [] ∧ digits.all py.isdigit :=
      ⟨hne, List.all_eq_true.mpr fun c hc => (hdigits c hc).left⟩
    obtain ⟨hmem, hstrip, hdrop⟩ := @bracket_eq py _ _ _ text hpad hpad' hne hinner
    rw [selector_tokens, if_neg (by decide), if_pos rfl]
    simp only [hstrip, hdrop, hmem, not_true_eq_false, if_false, if_neg hstar, if_pos hall, hn, ih]
    rfl
  | @every text tokens _ ih           =>
    rw [selector_tokens, if_pos rfl, if_neg (by simp), if_pos List.head?_cons, List.drop_one,
      List.tail_cons, ih]
    rfl
  | @all pad pad' text tokens hpad hpad' _ ih =>
    have hinner : ∀ c ∈ ['*'], ¬py.isspace c ∧ c ≠ ']' := by
      intro c hc
      rw [List.mem_singleton.mp hc]
      exact ⟨Bool.false_ne_true, by decide⟩
    obtain ⟨hmem, hstrip, hdrop⟩ := @bracket_eq py _ _ _ text hpad hpad' (by simp) hinner
    rw [selector_tokens, if_neg (by decide), if_pos rfl]
    simp only [hstrip, hdrop, hmem, not_true_eq_false, if_false, if_pos, ih]
    rfl

theorem selector_of_spelled {s : String} (hs : s.toList = '$' :: cs) (h : Spelled py cs tokens) :
    selector py s = .ok tokens := by
  rw [selector, hs]
  exact selector_tokens_of_spelled h

theorem select_from_of_selector {L : Languages} {s : String} (h : L.selector s = .ok tokens) :
    L.select_from found (some s) = .ok (select tokens found) := by
  rw [Languages.select_from, h]
  rfl

theorem not_conforms_null (h : .wildcard ∈ tokens) : ¬Conforms tokens .null := by
  rintro (hn | ⟨pre, post, x, l, rfl, _, hx, hl, _⟩)
  · exact hn h
  · cases pre with
    | nil            =>
      cases hx
      cases hl
    | cons token pre =>
      have hnil : [Json.null].flatMap (nodes token) = [] := by
        cases token <;> rfl
      have hx' : nodelist pre ([Json.null].flatMap (nodes token)) = [x] := hx
      rw [hnil, nodelist_nil] at hx'
      cases hx'

-- A path without a wildcard selects what it should from every document, and no other path does.
theorem select_from_iff (py : Python) (L : Languages) {s : String}
    (hs : s.toList = '$' :: cs) (h : Spelled py cs tokens) :
    (∀ doc, { L with selector := selector py : Languages }.select_from (some doc) (some s) =
      .ok (jsonpath tokens doc) ↔ Conforms tokens doc) ∧
    ((∀ doc, { L with selector := selector py : Languages }.select_from (some doc) (some s) =
      .ok (jsonpath tokens doc)) ↔ .wildcard ∉ tokens) := by
  have hiff : ∀ doc,
      { L with selector := selector py : Languages }.select_from (some doc) (some s) =
        .ok (jsonpath tokens doc) ↔ Conforms tokens doc := by
    intro doc
    rw [← select_iff, select_from_of_selector (selector_of_spelled hs h), Except.ok.injEq]
  refine ⟨hiff, fun hall hmem => ?_, fun hn doc => (hiff doc).mpr <| .inl hn⟩
  exact not_conforms_null hmem <| (hiff .null).mp <| hall .null

-- Languages of which only the selectors can be read.
def paths : Languages where
  condition _     := .error "no condition"
  predicate _     := .error "no predicate"
  rule _ _        := .error <| .evaluation "no rule"
  regex _         := .error "no regex"
  json_schema _ _ := .error <| .evaluation "no schema"
  selector        := selector .ascii
  repr _          := ""

theorem select_from_iff_children :
    paths.select_from (some (.obj [("x", .int 1)])) (some "$.*") = .ok (some (.arr [.int 1])) :=
  ((select_from_iff .ascii paths rfl (.every .nil)).left _).mpr <|
    .inr ⟨[], [], _, _, rfl, nofun, rfl, rfl, .inl rfl⟩

-- A key after a wildcard is looked up in the list of the nodes, where there is none.
theorem not_select_from : ¬∀ (s : String) (cs : List Char) (tokens : List SelectorToken)
    (doc : Json), s.toList = '$' :: cs → Spelled .ascii cs tokens →
      paths.select_from (some doc) (some s) = .ok (jsonpath tokens doc) := by
  intro h
  have hkey : Spelled .ascii (['.'] ++ ['a'] ++ []) [.key (String.ofList ['a'])] :=
    .key (by simp) (by simp [Python.isname, Python.isalnum]) .nil
  have hspelled : Spelled .ascii ['.', '*', '.', 'a'] [.wildcard, .key "a"] := .every hkey
  have htext : "$.*.a".toList = ['$', '.', '*', '.', 'a'] := rfl
  have htokens : paths.selector "$.*.a" = .ok [.wildcard, .key "a"] :=
    selector_of_spelled htext hspelled
  have hselect := h "$.*.a" _ _ (.obj [("x", .obj [("a", .int 1)])]) htext hspelled
  rw [select_from_of_selector htokens] at hselect
  cases hselect

end Evaluators
