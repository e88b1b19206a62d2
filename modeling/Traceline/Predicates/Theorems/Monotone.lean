import Traceline.Library.Except
import Traceline.Predicates.Evaluate

namespace Predicates

open Events

namespace Value

-- What a value may become once more of the event is known: a missing path anything, an unknown
-- truth value either truth value, everything else nothing but itself.
inductive Informs : Value → Value → Prop
  | refl (a : Value) : Informs a a
  | missing (b : Value) : Informs .missing b
  | unknown (v : Bool) : Informs .unknown v

-- A truth value that is still open.
def Open (a b : Value) : Prop :=
  a = .unknown ∧ (b = .unknown ∨ ∃ v : Bool, b = v)

-- The instant an operand of an ordering stands for.
def instant? (fromisoformat : String → Option Timestamp) : Value → Option Timestamp
  | .time t        => some t
  | .json (.str s) => fromisoformat s
  | _              => none

def isTime : Value → Bool
  | .time _ => true
  | _       => false

end Value

namespace Node

def paths : Node → List (Field × List String)
  | .path field segments                        => [(field, segments)]
  | .compare _ left right | .and left right
  | .or left right                              => left.paths ++ right.paths
  | .not child                                  => child.paths
  | .literal _                                  => []

def comparisons : Node → List (Op × Node × Node)
  | .compare op left right          => (op, left, right) :: left.comparisons ++ right.comparisons
  | .and left right | .or left right => left.comparisons ++ right.comparisons
  | .not child                      => child.comparisons
  | .literal _ | .path _ _          => []

-- The second event knows all of the paths of the predicate that the first one knows.
def Informed (n : Node) (e e' : TraceEvent) : Prop :=
  ∀ x ∈ n.paths, (resolve e x.fst x.snd).Informs (resolve e' x.fst x.snd)

end Node

-- The comparisons that take a marker for a value: an equality that decides over an open truth
-- value, or over a missing value and null.
def Misread (op : Op) (a b : Value) : Prop :=
  (op = .eq ∨ op = .ne) ∧ (a.Open b ∨ b.Open a) ∨
    op = .eq ∧ (a = .missing ∧ b = .json .null ∨ a = .json .null ∧ b = .missing)

section

variable (fromisoformat : String → Option Timestamp)

-- The orderings of a naive with an aware instant.
def Clash (op : Op) (a b : Value) : Prop :=
  (op ≠ .eq ∧ op ≠ .ne) ∧ (a.isTime ∨ b.isTime) ∧
    ∃ s ∈ a.instant? fromisoformat, ∃ t ∈ b.instant? fromisoformat,
      s.offset.isSome ≠ t.offset.isSome

-- No comparison the evaluation makes is of the given kind.
def Node.Avoids (n : Node) (e : TraceEvent) (bad : Op → Value → Value → Prop) : Prop :=
  ∀ x ∈ n.comparisons, ∀ a b, x.2.1.evaluate fromisoformat e = .ok a →
    x.2.2.evaluate fromisoformat e = .ok b → ¬ bad x.1 a b

end

variable {fromisoformat : String → Option Timestamp} {op : Op} {a b a' b' : Value} {v : Bool}

section Values

theorem ofKleene_informs {k k' : Kleene} (h : k.Informs k') :
    (ofKleene k).Informs (ofKleene k') := by
  cases h
  case inr he => exact he ▸ .refl _
  case inl hn =>
    subst hn
    cases k' with
    | none   => exact .refl _
    | some b => exact .unknown b

theorem Value.Informs.as_truth (h : a.Informs b) : (as_truth a).Informs (as_truth b) := by
  cases h with
  | refl      => exact .refl
  | missing   => exact .inl rfl
  | unknown v => exact .inl rfl

end Values

section Comparisons

theorem compare_missing (h : a = .missing ∨ b = .missing) (hm : ¬ Misread op a b) :
    compare fromisoformat op a b = .ok .unknown := by
  have hn : ¬ (op = .eq ∧ (a = .json .null ∨ b = .json .null)) := by
    rintro ⟨rfl, hnull⟩
    apply hm
    apply Or.inr
    cases h <;> cases hnull <;> simp_all
  unfold compare
  rw [if_pos h, if_neg hn]

-- A comparison yields a truth value or none that is known.
theorem compare_cases {c : Value} (h : compare fromisoformat op a b = .ok c) :
    c = .unknown ∨ ∃ v : Bool, c = v := by
  unfold compare at h
  split at h
  · split at h <;> cases h
    · exact .inr ⟨true, rfl⟩
    · exact .inl rfl
  · split at h
    · exact .inr ⟨_, (Except.ok.inj h).symm⟩
    · exact .inr ⟨_, (Except.ok.inj h).symm⟩
    · cases ho : order fromisoformat a b with
      | error m => simp [ho, bind, Except.bind] at h
      | ok r    =>
        cases r with
        | none   => simp [ho, bind, Except.bind, pure, Except.pure] at h; exact .inl h.symm
        | some n => simp [ho, bind, Except.bind, pure, Except.pure] at h; exact .inr ⟨_, h.symm⟩

theorem order_unknown (h : a = .unknown ∨ b = .unknown) : order fromisoformat a b = .ok none := by
  rcases h with rfl | rfl
  · cases b <;> rfl
  · unfold order
    cases a <;> rfl

-- Next to a value that is no truth value, no truth value makes an equality hold.
theorem typed_eq_left (fromisoformat : String → Option Timestamp) (v : Bool)
    (h : ¬ Value.Open .unknown b) :
    typed_eq fromisoformat .unknown b = false ∧ typed_eq fromisoformat v b = false := by
  cases b with
  | unknown => exact absurd ⟨rfl, .inl rfl⟩ h
  | json j  =>
    cases j with
    | bool w => exact absurd ⟨rfl, .inr ⟨w, rfl⟩⟩ h
    | null | int _ | float _ | str _ | arr _ | obj _ => exact ⟨rfl, rfl⟩
  | missing | time _ | block _ => exact ⟨rfl, rfl⟩

theorem typed_eq_right (fromisoformat : String → Option Timestamp) (v : Bool)
    (h : ¬ Value.Open .unknown a) :
    typed_eq fromisoformat a .unknown = false ∧ typed_eq fromisoformat a v = false := by
  cases a with
  | unknown => exact absurd ⟨rfl, .inl rfl⟩ h
  | json j  =>
    cases j with
    | bool w => exact absurd ⟨rfl, .inr ⟨w, rfl⟩⟩ h
    | null | int _ | float _ | str _ | arr _ | obj _ => exact ⟨rfl, rfl⟩
  | missing | time _ | block _ => exact ⟨rfl, rfl⟩

theorem compare_unknown (hop : op ≠ .eq ∧ op ≠ .ne) (h : a = .unknown ∨ b = .unknown) :
    compare fromisoformat op a b = .ok .unknown := by
  have hn : ¬ (op = .eq ∧ (a = .json .null ∨ b = .json .null)) := fun hc => hop.left hc.left
  unfold compare
  rw [if_neg hn]
  split
  · rfl
  · cases op with
    | eq => exact absurd rfl hop.left
    | ne => exact absurd rfl hop.right
    | lt | le | gt | ge =>
      dsimp only
      rw [order_unknown h]
      rfl

theorem compare_equality (hop : op = .eq ∨ op = .ne) (h : ¬ (a = .missing ∨ b = .missing))
    (h' : ¬ (a' = .missing ∨ b' = .missing))
    (he : typed_eq fromisoformat a' b' = typed_eq fromisoformat a b) :
    compare fromisoformat op a' b' = compare fromisoformat op a b := by
  unfold compare
  rw [if_neg h, if_neg h', he]
  cases hop
  case inl ho => subst ho; rfl
  case inr ho => subst ho; rfl

-- A comparison that decides keeps its result, unless it took a marker for a value.
theorem compare_keeps (ha : a.Informs a') (hb : b.Informs b') (hm : ¬ Misread op a b)
    (h : compare fromisoformat op a b = .ok v) : compare fromisoformat op a' b' = .ok v := by
  have hmissing : ¬ (a = .missing ∨ b = .missing) := by
    intro hc
    rw [compare_missing hc hm] at h
    cases h
  by_cases hop : op = .eq ∨ op = .ne
  case neg =>
    rw [not_or] at hop
    have hu : ¬ (a = .unknown ∨ b = .unknown) := by
      intro hc
      rw [compare_unknown hop hc] at h
      cases h
    cases ha with
    | missing   => exact absurd (.inl rfl) hmissing
    | unknown _ => exact absurd (.inl rfl) hu
    | refl      =>
      cases hb with
      | missing   => exact absurd (.inr rfl) hmissing
      | unknown _ => exact absurd (.inr rfl) hu
      | refl      => exact h
  case pos =>
    have hopen : ¬ a.Open b ∧ ¬ b.Open a := by
      rw [← not_or]
      exact fun ho => hm <| .inl ⟨hop, ho⟩
    cases ha with
    | missing   => exact absurd (.inl rfl) hmissing
    | refl      =>
      cases hb with
      | missing   => exact absurd (.inr rfl) hmissing
      | refl      => exact h
      | unknown w =>
        have ⟨hl, hr⟩ := typed_eq_right fromisoformat w hopen.right
        rwa [compare_equality hop hmissing (by simpa using hmissing) (hr.trans hl.symm)]
    | unknown w =>
      cases hb with
      | missing   => exact absurd (.inr rfl) hmissing
      | unknown _ => exact absurd ⟨rfl, .inl rfl⟩ hopen.left
      | refl      =>
        have ⟨hl, hr⟩ := typed_eq_left fromisoformat w hopen.left
        rwa [compare_equality hop hmissing (by simpa using hmissing) (hr.trans hl.symm)]

-- A comparison that takes a marker for a value decides too early.
theorem misread_loses (fromisoformat : String → Option Timestamp) (hm : Misread op a b) :
    ∃ a' b' v, a.Informs a' ∧ b.Informs b' ∧ compare fromisoformat op a b = .ok (v : Bool) ∧
      compare fromisoformat op a' b' ≠ .ok v := by
  rcases hm with ⟨rfl | rfl, ⟨rfl, rfl | ⟨w, rfl⟩⟩ | ⟨rfl, rfl | ⟨w, rfl⟩⟩⟩ |
    ⟨rfl, ⟨rfl, rfl⟩ | ⟨rfl, rfl⟩⟩
  · exact ⟨true, false, true, .unknown _, .unknown _, rfl, nofun⟩
  · exact ⟨w, w, false, .unknown _, .refl _, rfl, by cases w <;> nofun⟩
  · exact ⟨true, false, true, .unknown _, .unknown _, rfl, nofun⟩
  · exact ⟨w, w, false, .refl _, .unknown _, rfl, by cases w <;> nofun⟩
  · exact ⟨true, false, false, .unknown _, .unknown _, rfl, nofun⟩
  · exact ⟨w, w, true, .unknown _, .refl _, rfl, by cases w <;> nofun⟩
  · exact ⟨true, false, false, .unknown _, .unknown _, rfl, nofun⟩
  · exact ⟨w, w, true, .refl _, .unknown _, rfl, by cases w <;> nofun⟩
  · exact ⟨true, .json .null, true, .missing _, .refl _, rfl, nofun⟩
  · exact ⟨.json .null, true, true, .refl _, .missing _, rfl, nofun⟩

theorem time_order_ok {s t : Timestamp} (h : s.offset.isSome = t.offset.isSome) :
    ∃ r, time_order s t = .ok r := by
  unfold time_order Timestamp.lt
  cases hs : s.offset <;> cases ht : t.offset <;> simp_all [bind, Except.bind, pure, Except.pure]

theorem order_ok (h : ¬ ((a.isTime ∨ b.isTime) ∧ ∃ s ∈ a.instant? fromisoformat,
    ∃ t ∈ b.instant? fromisoformat, s.offset.isSome ≠ t.offset.isSome)) :
    ∃ r, order fromisoformat a b = .ok r := by
  have hsame {s t} (hab : a.isTime ∨ b.isTime) (hs : s ∈ a.instant? fromisoformat)
      (ht : t ∈ b.instant? fromisoformat) : s.offset.isSome = t.offset.isSome :=
    of_not_not fun hne => h ⟨hab, s, hs, t, ht, hne⟩
  unfold order
  split
  · exact ⟨_, rfl⟩
  case h_2 s text =>
    cases hp : fromisoformat text with
    | none   => exact ⟨none, rfl⟩
    | some t => exact time_order_ok <| hsame (.inl rfl) rfl hp
  case h_3 text t =>
    cases hp : fromisoformat text with
    | none   => exact ⟨none, rfl⟩
    | some s => exact time_order_ok <| hsame (.inr rfl) hp rfl
  · exact time_order_ok <| hsame (.inl rfl) rfl rfl
  · exact ⟨none, rfl⟩

theorem compare_ok (h : ¬ Clash fromisoformat op a b) :
    ∃ c, compare fromisoformat op a b = .ok c := by
  unfold compare
  split
  · split <;> exact ⟨_, rfl⟩
  · split
    · exact ⟨_, rfl⟩
    · exact ⟨_, rfl⟩
    case h_3 he hn =>
      have ⟨r, hr⟩ := order_ok fun ho => h ⟨⟨he, hn⟩, ho⟩
      rw [hr]
      cases r <;> exact ⟨_, rfl⟩

-- The result of a comparison, once more of its operands is known.
theorem compare_informs (ha : a.Informs a') (hb : b.Informs b') (hm : ¬ Misread op a b)
    (hc : ¬ Clash fromisoformat op a' b') {c : Value}
    (h : compare fromisoformat op a b = .ok c) :
    ∃ c', compare fromisoformat op a' b' = .ok c' ∧ c.Informs c' := by
  have ⟨c', hc'⟩ := compare_ok hc
  refine ⟨c', hc', ?_⟩
  obtain rfl | ⟨v, rfl⟩ := compare_cases h
  case inr =>
    have hk := hc'.symm.trans <| compare_keeps ha hb hm h
    rw [Except.ok.inj hk]
    exact .refl _
  case inl =>
    obtain rfl | ⟨v, rfl⟩ := compare_cases hc'
    · exact .refl _
    · exact .unknown v

end Comparisons

namespace Node

variable {n m : Node} {e e' : TraceEvent} {bad : Op → Value → Value → Prop}

theorem Informed.of_subset (h : n.Informed e e') (hs : m.paths ⊆ n.paths) : m.Informed e e' :=
  fun x hx => h x <| hs hx

theorem Avoids.of_subset (h : n.Avoids fromisoformat e bad) (hs : m.comparisons ⊆ n.comparisons) :
    m.Avoids fromisoformat e bad :=
  fun x hx => h x <| hs hx

-- What an induction hypothesis says about one side of a node.
def Gains (fromisoformat : String → Option Timestamp) (e e' : TraceEvent) (n : Node) : Prop :=
  ∀ {a}, n.evaluate fromisoformat e = .ok a →
    ∃ a', n.evaluate fromisoformat e' = .ok a' ∧ a.Informs a'

theorem gains_both {left right : Node} (hl : left.Gains fromisoformat e e')
    (hr : right.Gains fromisoformat e e') {f g : Value → Value → Except String Value} {c : Value}
    (hfg : ∀ {a b a' b' c}, left.evaluate fromisoformat e = .ok a →
      right.evaluate fromisoformat e = .ok b → left.evaluate fromisoformat e' = .ok a' →
      right.evaluate fromisoformat e' = .ok b' → a.Informs a' → b.Informs b' → f a b = .ok c →
      ∃ c', g a' b' = .ok c' ∧ c.Informs c')
    (h : (do
      let a ← left.evaluate fromisoformat e
      let b ← right.evaluate fromisoformat e
      f a b) = .ok c) :
    ∃ c', (do
      let a ← left.evaluate fromisoformat e'
      let b ← right.evaluate fromisoformat e'
      g a b) = .ok c' ∧ c.Informs c' := by
  obtain ⟨a, ha, h⟩ := Except.bind_eq_ok_iff.mp h
  obtain ⟨b, hb, h⟩ := Except.bind_eq_ok_iff.mp h
  have ⟨a', ha', hia⟩ := hl ha
  have ⟨b', hb', hib⟩ := hr hb
  have ⟨c', hc', hi⟩ := hfg ha hb ha' hb' hia hib h
  refine ⟨c', ?_, hi⟩
  rw [ha', hb']
  exact hc'

-- Every subexpression only gains information.
theorem evaluate_informs (hp : n.Informed e e') (hm : n.Avoids fromisoformat e Misread)
    (hc : n.Avoids fromisoformat e' (Clash fromisoformat)) : n.Gains fromisoformat e e' := by
  intro a h
  induction n generalizing a with
  | literal value               => exact ⟨a, h, .refl a⟩
  | path field segments         =>
    cases h
    exact ⟨_, rfl, hp _ <| .head _⟩
  | not child ih                =>
    obtain ⟨b, hb, h⟩ := Except.bind_eq_ok_iff.mp h
    have ⟨b', hb', hi⟩ := ih hp hm hc hb
    refine ⟨bool_not b', ?_, ?_⟩
    · rw [evaluate, hb']
      rfl
    · cases h
      rw [bool_not_eq, bool_not_eq]
      exact ofKleene_informs hi.as_truth.not
  | compare op left right hl hr =>
    have hsl : left.comparisons ⊆ (compare op left right).comparisons := fun _ hx =>
      .tail _ <| List.mem_append_left _ hx
    have hsr : right.comparisons ⊆ (compare op left right).comparisons := fun _ hx =>
      .tail _ <| List.mem_append_right _ hx
    refine gains_both
      (hl (hp.of_subset <| List.subset_append_left _ _) (hm.of_subset hsl) (hc.of_subset hsl))
      (hr (hp.of_subset <| List.subset_append_right _ _) (hm.of_subset hsr) (hc.of_subset hsr))
      (fun ha hb ha' hb' hia hib h => ?_) h
    exact compare_informs hia hib (hm _ (.head _) _ _ ha hb) (hc _ (.head _) _ _ ha' hb') h
  | and left right hl hr        =>
    refine gains_both
      (hl (hp.of_subset <| List.subset_append_left _ _)
        (hm.of_subset <| List.subset_append_left _ _) (hc.of_subset <| List.subset_append_left _ _))
      (hr (hp.of_subset <| List.subset_append_right _ _)
        (hm.of_subset <| List.subset_append_right _ _)
        (hc.of_subset <| List.subset_append_right _ _))
      (fun _ _ _ _ hia hib h => ⟨_, rfl, ?_⟩) h
    cases h
    rw [bool_and_eq, bool_and_eq]
    exact ofKleene_informs <| hia.as_truth.and hib.as_truth
  | or left right hl hr         =>
    refine gains_both
      (hl (hp.of_subset <| List.subset_append_left _ _)
        (hm.of_subset <| List.subset_append_left _ _) (hc.of_subset <| List.subset_append_left _ _))
      (hr (hp.of_subset <| List.subset_append_right _ _)
        (hm.of_subset <| List.subset_append_right _ _)
        (hc.of_subset <| List.subset_append_right _ _))
      (fun _ _ _ _ hia hib h => ⟨_, rfl, ?_⟩) h
    cases h
    rw [bool_or_eq, bool_or_eq]
    exact ofKleene_informs <| hia.as_truth.or hib.as_truth

end Node

-- A predicate that is true while paths are missing stays true for every value they are given, where
-- no comparison takes a marker for a value and no ordering mixes naive with aware instants. The
-- comparisons that keep their results whatever is learned are those that take no marker for a value.
theorem predicates_monotone (fromisoformat : String → Option Timestamp) :
    (∀ (n : Node) (e e' : TraceEvent), n.Informed e e' → n.Avoids fromisoformat e Misread →
      n.Avoids fromisoformat e' (Clash fromisoformat) →
      evaluate fromisoformat e n = .ok true → evaluate fromisoformat e' n = .ok true) ∧
    ∀ op a b, (∀ a' b', a.Informs a' → b.Informs b' → ∀ v : Bool,
      compare fromisoformat op a b = .ok v → compare fromisoformat op a' b' = .ok v) ↔
        ¬ Misread op a b := by
  constructor
  case left =>
    intro n e e' hp hm hc h
    obtain ⟨a, ha, h⟩ := Except.bind_eq_ok_iff.mp h
    have ⟨a', ha', hi⟩ := n.evaluate_informs hp hm hc ha
    have ha : a = .json (.bool true) := of_decide_eq_true <| Except.ok.inj h
    subst ha
    cases hi
    rw [evaluate, ha']
    rfl
  case right =>
    intro op a b
    constructor
    case mp =>
      intro h hm
      have ⟨a', b', v, ha, hb, hv, hne⟩ := misread_loses fromisoformat hm
      exact hne <| h a' b' ha hb v hv
    case mpr => exact fun hm a' b' ha hb v h => compare_keeps ha hb hm h

namespace Given

-- An event with the given payload.
def event (payload : List (String × Json)) : TraceEvent where
  event_id          := "e"
  run_id            := "r"
  workspace_id      := "w"
  case_id           := "c"
  attempt_id        := "a"
  type              := .llm_call
  timestamp         := ⟨0, some 0⟩
  payload           := some payload
  tool_typed_column := llm_call_untyped

-- `(payload.x == 1) != true`
def negated : Node :=
  .compare .ne (.compare .eq (.path .payload ["x"]) (.literal (.int 1))) (.literal (.bool true))

end Given

open Given in
theorem marker_decides :
    ¬ ∀ (fromisoformat : String → Option Timestamp) (n : Node) (e e' : TraceEvent),
      (∀ x ∈ n.comparisons, x.2.1 ≠ .literal .null ∧ x.2.2 ≠ .literal .null) →
      n.Informed e e' → evaluate fromisoformat e n = .ok true →
      evaluate fromisoformat e' n = .ok true := by
  intro h
  have hn : negated.Informed (event []) (event [("x", .int 1)]) := by
    intro x hx
    obtain rfl : x = (.payload, ["x"]) := by simpa [negated, Node.paths] using hx
    exact .missing _
  have := h (fun _ => none) negated (event []) (event [("x", .int 1)]) (by decide) hn rfl
  exact absurd this (by decide)

open Given in
-- `payload.x == 1 || payload.y == 2`, true before and after `x` is given.
theorem predicates_monotone_given :
    evaluate (fun _ => none) (event [("y", .int 2), ("x", .int 5)])
      (.or (.compare .eq (.path .payload ["x"]) (.literal (.int 1)))
        (.compare .eq (.path .payload ["y"]) (.literal (.int 2)))) = .ok true := by
  refine (predicates_monotone fun _ => none).left _ (event [("y", .int 2)]) _ ?_ ?_ ?_ rfl
  · intro x hx
    simp only [Node.paths, List.append_nil, List.cons_append, List.nil_append, List.mem_cons,
      List.not_mem_nil, or_false] at hx
    rcases hx with rfl | rfl
    · exact .missing _
    · exact .refl _
  · intro x hx a b ha hb
    simp only [Node.comparisons, List.append_nil, List.cons_append, List.nil_append, List.mem_cons,
      List.not_mem_nil, or_false] at hx
    rcases hx with rfl | rfl <;> cases ha <;> cases hb <;>
      simp [Misread, Value.Open, resolve, resolve_segment, Field.get, event]
  · intro x hx a b _ _ hc
    simp only [Node.comparisons, List.append_nil, List.cons_append, List.nil_append, List.mem_cons,
      List.not_mem_nil, or_false] at hx
    rcases hx with rfl | rfl <;> exact hc.left.left rfl

end Predicates
