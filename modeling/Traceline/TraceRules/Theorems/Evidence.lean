import Traceline.TraceRules.Theorems.Permutation

-- What a rule says of the events: whether it holds, and which of them speak for the verdict.
namespace TraceRules

open Events Except
open Evaluators (RuleResult dedupe_ids)

-- The meaning of a rule: whether it holds, the events it finds, and those it fails on.
structure Meaning where
  holds   : Prop
  touched : Set String
  blamed  : Set String

namespace Meaning

def evidence (m : Meaning) : Set String :=
  m.touched ∪ m.blamed

-- A rule that is about the events it selects.
def leaf (holds : Prop) (touched blamed : List TraceEvent) : Meaning where
  holds
  touched := {id | id ∈ ids touched}
  blamed  := {id | id ∈ ids blamed}

def group (holds : Prop) (ms : List Meaning) : Meaning where
  holds
  touched := {id | ∃ m ∈ ms, id ∈ m.touched}
  blamed  := {id | ¬holds ∧ ∃ m ∈ ms, ¬m.holds ∧ id ∈ m.evidence}

-- The negated rule is blamed where it fails, which is where its negation holds.
def negation (m : Meaning) : Meaning where
  holds   := ¬m.holds
  touched := m.touched
  blamed  := {id | ¬m.holds ∧ id ∈ m.evidence}

def implication (a b : Meaning) : Meaning where
  holds   := a.holds → b.holds
  touched := a.touched ∪ b.touched
  blamed  := {id | ¬(a.holds → b.holds) ∧ id ∈ a.evidence ∪ b.evidence}

def every (events : List TraceEvent) (m : TraceEvent → Meaning) : Meaning where
  holds   := ∀ e ∈ events, (m e).holds
  touched := {id | id ∈ ids events}
  blamed  := {id | ∃ e ∈ events, ¬(m e).holds ∧ id ∈ (m e).evidence}

def nothing : Meaning where
  holds   := False
  touched := ∅
  blamed  := ∅

end Meaning

namespace Context

variable (x : Context)

def found (l : Except Error (List TraceEvent)) : List TraceEvent :=
  l.toOption.getD []

-- The events that a node with a match is about.
def selection (op : Op) (anchor : Option TraceEvent) (node : Node) : List TraceEvent :=
  match op, anchor with
  | .within_ms, _ =>
    match int? (get node "ms"), object? node "match" with
    | some ms, some pattern => found (x.matching pattern anchor (some ms))
    | _,       _            => []
  | .exists_before, some a | .exists_after, some a | .immediately_precedes, some a =>
    found <| x.candidates (some a) node >>= fun candidates => x.satisfying op candidates a
  | _, _ => found (x.candidates anchor node)

-- The events that an anchored node considered in vain.
def near_misses (op : Op) (anchor : Option TraceEvent) (node : Node) : List TraceEvent :=
  if x.selection op anchor node = [] then found (x.candidates anchor node) else []

def meaning : ℕ → Option TraceEvent → Json → Meaning
  | left + 1, anchor, .obj node =>
    match op? node with
    | none    => .nothing
    | some op =>
      let chosen := x.selection op anchor node
      match op with
      | .and =>
        let ms := ((children? node).getD []).map (meaning left anchor)
        .group (∀ m ∈ ms, m.holds) ms
      | .or  =>
        let ms := ((children? node).getD []).map (meaning left anchor)
        .group (∃ m ∈ ms, m.holds) ms
      | .not     => .negation (meaning left anchor (get node "rule"))
      | .implies =>
        match get node "rules" with
        | .arr [consequent] =>
          .implication (meaning left anchor (get node "rule")) (meaning left anchor consequent)
        | _                 => .nothing
      | .for_all =>
        .every chosen fun e => meaning left (some e) (get node "assert")
      | .within_ms | .exists => .leaf (chosen ≠ []) chosen []
      | .exists_before | .exists_after | .immediately_precedes =>
        .leaf (chosen ≠ []) chosen (x.near_misses op anchor node)
      | .never => .leaf (chosen = []) chosen chosen
      | .count => .leaf True chosen []
  | _, _, _ => .nothing

-- How the result of a node comes about.
inductive Explained (left : ℕ) (anchor : Option TraceEvent) (node : Node) : RuleResult → Prop
  | compound {op rules results result} (hop : op? node = some op) (hcompound : op = .and ∨ op = .or)
      (hrules : children? node = some rules)
      (heval : List.Forall₂ (fun rule r => x.eval_node left anchor rule = .ok r) rules results)
      (hresult : result = if op = .and then results.all (·.result) else results.any (·.result)) :
    Explained left anchor node {
      result
      matched := dedupe_ids <| results.flatMap (·.matched)
      failing :=
        if result then []
        else dedupe_ids <|
          (results.filter fun r => !r.result).flatMap fun r => r.matched ++ r.failing
    }
  | negation {cr} (hop : op? node = some .not)
      (heval : x.eval_node left anchor (get node "rule") = .ok cr) :
    Explained left anchor node {
      result  := !cr.result
      matched := cr.matched
      failing := if cr.result then [] else dedupe_ids (cr.matched ++ cr.failing)
    }
  | implication {consequent ar br result} (hop : op? node = some .implies)
      (hrules : get node "rules" = .arr [consequent])
      (ha : x.eval_node left anchor (get node "rule") = .ok ar)
      (hb : x.eval_node left anchor consequent = .ok br)
      (hresult : result = (!ar.result || br.result)) :
    Explained left anchor node {
      result
      matched := dedupe_ids (ar.matched ++ br.matched)
      failing :=
        if result then []
        else dedupe_ids (ar.matched ++ ar.failing ++ br.matched ++ br.failing)
    }
  | every {results failed} (hop : op? node = some .for_all)
      (heval : List.Forall₂ (fun e r => x.eval_node left (some e) (get node "assert") = .ok r)
        (x.selection .for_all anchor node) results)
      (hfailed : failed = results.filter fun r => !r.result) :
    Explained left anchor node {
      result  := failed = []
      matched := ids (x.selection .for_all anchor node)
      failing := dedupe_ids <| failed.flatMap fun r => r.matched ++ r.failing
    }
  | within (hop : op? node = some .within_ms) :
    Explained left anchor node {
      result  := x.selection .within_ms anchor node ≠ []
      matched := ids (x.selection .within_ms anchor node)
    }
  | anchored {op} (hop : op? node = some op)
      (hanchored : op ∈ [Op.exists_before, .exists_after, .immediately_precedes]) :
    Explained left anchor node {
      result  := x.selection op anchor node ≠ []
      matched := ids (x.selection op anchor node)
      failing := ids (x.near_misses op anchor node)
    }
  | exists (hop : op? node = some .exists) :
    Explained left anchor node {
      result  := x.selection .exists anchor node ≠ []
      matched := ids (x.selection .exists anchor node)
    }
  | never (hop : op? node = some .never) :
    Explained left anchor node {
      result  := x.selection .never anchor node = []
      matched := ids (x.selection .never anchor node)
      failing := ids (x.selection .never anchor node)
    }
  | count (hop : op? node = some .count) :
    Explained left anchor node {
      result  := true
      matched := ids (x.selection .count anchor node)
      value   := some (x.selection .count anchor node).length
    }

variable {x : Context} {left : ℕ} {anchor : Option TraceEvent} {node : Node} {rule : Json}
variable {r : RuleResult}

theorem found_ok {l : List TraceEvent} : found (.ok l) = l :=
  rfl

theorem get_of_object? {key : String} {rule : Node} (h : object? node key = some rule) :
    get node key = .obj rule := by
  rw [object?] at h
  cases hg : get node key with
  | obj kvs =>
    rw [hg] at h
    cases h
    rfl
  | _       => rw [hg] at h; cases h

section Explained

variable {op : Op}

theorem explained_and_or (hop : op? node = some op) (hcompound : op = .and ∨ op = .or)
    (h : x.eval_and_or (x.eval_node left) op anchor node = .ok r) :
    x.Explained left anchor node r := by
  rw [eval_and_or] at h
  cases hrules : children? node with
  | none       =>
    rw [hrules] at h
    cases h
  | some rules =>
    rw [hrules] at h
    obtain ⟨results, hresults, h⟩ := bind_eq_ok_iff.mp h
    cases h
    exact .compound hop hcompound hrules (mapM_eq_ok_iff.mp hresults) rfl

theorem explained_not (hop : op? node = some .not)
    (h : eval_not (x.eval_node left) anchor node = .ok r) : x.Explained left anchor node r := by
  rw [eval_not] at h
  cases hchild : object? node "rule" with
  | none       =>
    rw [hchild] at h
    cases h
  | some child =>
    rw [hchild] at h
    obtain ⟨cr, hcr, h⟩ := bind_eq_ok_iff.mp h
    cases h
    rw [← get_of_object? hchild] at hcr
    exact .negation hop hcr

theorem explained_implies (hop : op? node = some .implies)
    (h : eval_implies (x.eval_node left) anchor node = .ok r) : x.Explained left anchor node r := by
  rw [eval_implies] at h
  cases hchild : object? node "rule" with
  | none       =>
    rw [hchild] at h
    cases h
  | some child =>
    rw [hchild] at h
    dsimp only at h
    split at h
    case h_2 => cases h
    case h_1 consequent hrules =>
      obtain ⟨ar, har, h⟩ := bind_eq_ok_iff.mp h
      obtain ⟨br, hbr, h⟩ := bind_eq_ok_iff.mp h
      cases h
      rw [← get_of_object? hchild] at har
      exact .implication hop hrules har hbr rfl

theorem explained_for_all (hop : op? node = some .for_all)
    (h : x.eval_for_all (x.eval_node left) anchor node = .ok r) :
    x.Explained left anchor node r := by
  rw [eval_for_all] at h
  split at h
  case h_2 => cases h
  case h_1 pattern rule hpattern hrule =>
    split at h
    case h_1 => cases h
    case h_2 window hwindow =>
      obtain ⟨candidates, hcandidates, h⟩ := bind_eq_ok_iff.mp h
      obtain ⟨results, hresults, h⟩ := bind_eq_ok_iff.mp h
      cases h
      have hsel : x.selection .for_all anchor node = candidates := by
        rw [selection, Context.candidates, hpattern]
        dsimp only
        rw [hwindow]
        dsimp only
        rw [hcandidates, found_ok]
        all_goals simp
      rw [← hsel, ← get_of_object? hrule] at hresults
      rw [← hsel]
      exact .every hop (mapM_eq_ok_iff.mp hresults) rfl

theorem explained_within_ms (hop : op? node = some .within_ms)
    (h : x.eval_within_ms anchor node = .ok r) : x.Explained left anchor node r := by
  rw [eval_within_ms] at h
  split at h
  case h_2 => cases h
  case h_1 ms pattern hms hpattern =>
    obtain ⟨candidates, hcandidates, h⟩ := bind_eq_ok_iff.mp h
    cases h
    have hsel : x.selection .within_ms anchor node = candidates := by
      rw [selection, hms, hpattern]
      dsimp only
      rw [hcandidates, found_ok]
    rw [← hsel]
    exact .within hop

theorem explained_anchored (hop : op? node = some op)
    (hanchored : op ∈ [Op.exists_before, .exists_after, .immediately_precedes])
    (h : x.eval_anchored op anchor node = .ok r) : x.Explained left anchor node r := by
  cases anchor with
  | none   => cases h
  | some a =>
    obtain ⟨candidates, hcandidates, h⟩ := bind_eq_ok_iff.mp h
    obtain ⟨chosen, hchosen, h⟩ := bind_eq_ok_iff.mp h
    cases h
    have hsel : x.selection op (some a) node = chosen := by
      have hbind : (x.candidates (some a) node >>= fun candidates =>
          x.satisfying op candidates a) = .ok chosen :=
        bind_eq_ok_iff.mpr ⟨_, hcandidates, hchosen⟩
      simp only [List.mem_cons, List.not_mem_nil, or_false] at hanchored
      rcases hanchored with rfl | rfl | rfl <;> rw [selection, hbind, found_ok]
    have hmiss : (if chosen = [] then ids candidates else []) =
        ids (x.near_misses op (some a) node) := by
      rw [near_misses, hsel, hcandidates, found_ok]
      split <;> rfl
    rw [hmiss, ← hsel]
    exact .anchored hop hanchored

theorem explained_match_bearing (hop : op? node = some op) (hbearing : op ∈ [Op.exists, .never, .count])
    (h : x.eval_match_bearing op anchor node = .ok r) : x.Explained left anchor node r := by
  obtain ⟨candidates, hcandidates, h⟩ := bind_eq_ok_iff.mp h
  simp only [List.mem_cons, List.not_mem_nil, or_false] at hbearing
  have hsel : x.selection op anchor node = candidates := by
    rcases hbearing with rfl | rfl | rfl <;>
      simp only [selection, hcandidates, found_ok]
  rcases hbearing with rfl | rfl | rfl
  · cases h
    rw [← hsel]
    exact .exists hop
  · cases h
    rw [← hsel]
    have hnever : (if x.selection .never anchor node = [] then [] else
        ids (x.selection .never anchor node)) = ids (x.selection .never anchor node) := by
      split
      case isTrue h  => rw [h]; rfl
      case isFalse => rfl
    rw [hnever]
    exact .never hop
  · cases h
    rw [← hsel]
    exact .count hop

theorem explained (h : x.eval_node (left + 1) anchor rule = .ok r) :
    ∃ node, rule = .obj node ∧ x.Explained left anchor node r := by
  cases rule with
  | null | bool _ | int _ | float _ | str _ | arr _ => cases h
  | obj node                                        =>
    refine ⟨node, rfl, ?_⟩
    rw [eval_node] at h
    cases hop : op? node with
    | none    =>
      rw [hop] at h
      cases h
    | some op =>
      rw [hop] at h
      cases op with
      | and | or                                             => exact explained_and_or hop (by simp) h
      | not                                                  => exact explained_not hop h
      | implies                                              => exact explained_implies hop h
      | for_all                                              => exact explained_for_all hop h
      | within_ms                                            => exact explained_within_ms hop h
      | exists_before | exists_after | immediately_precedes  => exact explained_anchored hop (by simp) h
      | «exists» | never | count                             => exact explained_match_bearing hop (by simp) h

end Explained

theorem mem_of_satisfying {op : Op} {candidates chosen : List TraceEvent} {a e : TraceEvent}
    (h : x.satisfying op candidates a = .ok chosen) (he : e ∈ chosen) : e ∈ candidates := by
  unfold satisfying at h
  split at h
  case h_1 => exact mem_of_mem_filter h he
  case h_2 => exact mem_of_mem_filter h he
  case h_3 =>
    rw [immediate_predecessors] at h
    split at h
    case h_1 =>
      cases h
      exact List.mem_of_mem_filter he
    case h_2 =>
      obtain ⟨best, _, h⟩ := bind_eq_ok_iff.mp h
      split at h
      case h_1 =>
        cases h
        cases he
      case h_2 =>
        cases h
        exact List.mem_of_mem_filter he

theorem mem_of_found {l : Except Error (List TraceEvent)} {e : TraceEvent} (he : e ∈ found l) :
    ∃ es, l = .ok es ∧ e ∈ es := by
  cases l with
  | ok es   => exact ⟨es, rfl, he⟩
  | error _ => cases he

theorem mem_of_selection {op : Op} {e : TraceEvent} (he : e ∈ x.selection op anchor node) :
    e ∈ x.events := by
  unfold selection at he
  split at he
  case h_1 =>
    split at he
    case h_1 =>
      obtain ⟨es, hes, he⟩ := mem_of_found he
      exact mem_of_matching hes he
    case h_2 => cases he
  case h_2 | h_3 | h_4 =>
    obtain ⟨es, hes, he⟩ := mem_of_found he
    obtain ⟨candidates, hcandidates, hes⟩ := bind_eq_ok_iff.mp hes
    exact mem_of_candidates hcandidates <| mem_of_satisfying hes he
  case h_5 =>
    obtain ⟨es, hes, he⟩ := mem_of_found he
    exact mem_of_candidates hes he

theorem mem_of_near_misses {op : Op} {e : TraceEvent} (he : e ∈ x.near_misses op anchor node) :
    e ∈ x.events := by
  rw [near_misses] at he
  split at he
  case isTrue =>
    obtain ⟨es, hes, he⟩ := mem_of_found he
    exact mem_of_candidates hes he
  case isFalse => cases he

theorem ids_subset {l : List TraceEvent} (h : ∀ e ∈ l, e ∈ x.events) {id : String}
    (hid : id ∈ ids l) : id ∈ ids x.events :=
  List.map_subset _ h hid

-- What a result names are events of the list.
theorem mem_ids_of_eval (h : x.eval_node left anchor rule = .ok r) {id : String}
    (hid : id ∈ r.matched ++ r.failing) : id ∈ ids x.events := by
  induction left generalizing anchor rule r id with
  | zero         => cases h
  | succ left ih =>
    obtain ⟨node, rfl, he⟩ := explained h
    cases he with
    | @compound _ _ results _ _ _ _ heval _ =>
      have hall : ∀ r ∈ results, ∀ id ∈ r.matched ++ r.failing, id ∈ ids x.events := by
        intro r hr id hid
        obtain ⟨rule, _, hrule⟩ := heval.exists_of_mem_right hr
        exact ih hrule hid
      rcases List.mem_append.mp hid with hid | hid
      · obtain ⟨r, hr, hid⟩ := List.mem_flatMap.mp <| mem_dedupe_ids.mp hid
        exact hall r hr id <| List.mem_append_left _ hid
      · split at hid
        · cases hid
        · obtain ⟨r, hr, hid⟩ := List.mem_flatMap.mp <| mem_dedupe_ids.mp hid
          exact hall r (List.mem_of_mem_filter hr) id hid
    | negation _ heval =>
      rcases List.mem_append.mp hid with hid | hid
      · exact ih heval <| List.mem_append_left _ hid
      · split at hid
        · cases hid
        · exact ih heval <| mem_dedupe_ids.mp hid
    | implication _ _ ha hb _ =>
      simp only [List.mem_append] at ih hid
      rcases hid with hid | hid
      · rcases List.mem_append.mp <| mem_dedupe_ids.mp hid with hid | hid
        · exact ih ha <| .inl hid
        · exact ih hb <| .inl hid
      · split at hid
        · cases hid
        · simp only [mem_dedupe_ids, List.mem_append] at hid
          rcases hid with ((hid | hid) | hid) | hid
          · exact ih ha <| .inl hid
          · exact ih ha <| .inr hid
          · exact ih hb <| .inl hid
          · exact ih hb <| .inr hid
    | every _ heval hfailed =>
      rcases List.mem_append.mp hid with hid | hid
      · exact ids_subset (fun _ => mem_of_selection) hid
      · obtain ⟨r, hr, hid⟩ := List.mem_flatMap.mp <| mem_dedupe_ids.mp hid
        rw [hfailed] at hr
        obtain ⟨e, _, hr⟩ := heval.exists_of_mem_right <| List.mem_of_mem_filter hr
        exact ih hr hid
    | within | «exists» | count =>
      exact ids_subset (fun _ => mem_of_selection) <| by simpa using hid
    | never =>
      exact ids_subset (fun _ => mem_of_selection) <| by simpa using hid
    | anchored =>
      rcases List.mem_append.mp hid with hid | hid
      · exact ids_subset (fun _ => mem_of_selection) hid
      · exact ids_subset (fun _ => mem_of_near_misses) hid

end Context

-- A result says what the rule means.
structure Refines (r : RuleResult) (m : Meaning) : Prop where
  holds   : r.result = true ↔ m.holds
  touched : ∀ id, id ∈ r.matched ↔ id ∈ m.touched
  blamed  : ∀ id, id ∈ r.failing ↔ id ∈ m.blamed

namespace Refines

variable {r : RuleResult} {m : Meaning}

theorem evidence (h : Refines r m) (id : String) :
    id ∈ r.matched ++ r.failing ↔ id ∈ m.evidence := by
  rw [List.mem_append, h.touched, h.blamed]
  rfl

theorem evidence_eq_nil_iff (h : Refines r m) :
    r.matched ++ r.failing = [] ↔ m.evidence = ∅ := by
  rw [List.eq_nil_iff_forall_not_mem, Set.eq_empty_iff_forall_notMem]
  exact forall_congr' fun id => not_congr <| h.evidence id

end Refines

namespace Context

variable {x : Context} {left : ℕ} {anchor : Option TraceEvent} {node : Node} {rule : Json}
variable {r : RuleResult}

theorem refines_group {results : List RuleResult} {ms : List Meaning} {result : Bool}
    {holds : Prop} (h : List.Forall₂ Refines results ms) (hholds : result = true ↔ holds) :
    Refines {
      result
      matched := dedupe_ids <| results.flatMap (·.matched)
      failing :=
        if result then []
        else dedupe_ids <|
          (results.filter fun r => !r.result).flatMap fun r => r.matched ++ r.failing
    } (.group holds ms) where
  holds := hholds
  touched id := by
    rw [mem_dedupe_ids, List.mem_flatMap]
    constructor
    · rintro ⟨r, hr, hid⟩
      obtain ⟨m, hm, hrm⟩ := h.exists_of_mem_left hr
      exact ⟨m, hm, hrm.touched id |>.mp hid⟩
    · rintro ⟨m, hm, hid⟩
      obtain ⟨r, hr, hrm⟩ := h.exists_of_mem_right hm
      exact ⟨r, hr, hrm.touched id |>.mpr hid⟩
  blamed id := by
    change id ∈ ite _ _ _ ↔ ¬holds ∧ _
    rw [← hholds]
    split
    case isTrue hr  => simp [hr]
    case isFalse hr =>
      rw [mem_dedupe_ids, List.mem_flatMap]
      constructor
      · rintro ⟨r, hmem, hid⟩
        obtain ⟨hmem, hfail⟩ := List.mem_filter.mp hmem
        obtain ⟨m, hm, hrm⟩ := h.exists_of_mem_left hmem
        refine ⟨hr, m, hm, ?_, hrm.evidence id |>.mp hid⟩
        rw [← hrm.holds]
        simpa using hfail
      · rintro ⟨_, m, hm, hfail, hid⟩
        obtain ⟨r, hmem, hrm⟩ := h.exists_of_mem_right hm
        refine ⟨r, List.mem_filter.mpr ⟨hmem, ?_⟩, hrm.evidence id |>.mpr hid⟩
        rw [← hrm.holds] at hfail
        simpa using hfail

theorem all_iff {results : List RuleResult} {ms : List Meaning}
    (h : List.Forall₂ Refines results ms) : results.all (·.result) = true ↔ ∀ m ∈ ms, m.holds := by
  rw [List.all_eq_true]
  constructor
  · intro hall m hm
    obtain ⟨r, hr, hrm⟩ := h.exists_of_mem_right hm
    exact hrm.holds.mp <| hall r hr
  · intro hall r hr
    obtain ⟨m, hm, hrm⟩ := h.exists_of_mem_left hr
    exact hrm.holds.mpr <| hall m hm

theorem any_iff {results : List RuleResult} {ms : List Meaning}
    (h : List.Forall₂ Refines results ms) : results.any (·.result) = true ↔ ∃ m ∈ ms, m.holds := by
  rw [List.any_eq_true]
  constructor
  · rintro ⟨r, hr, hres⟩
    obtain ⟨m, hm, hrm⟩ := h.exists_of_mem_left hr
    exact ⟨m, hm, hrm.holds.mp hres⟩
  · rintro ⟨m, hm, hres⟩
    obtain ⟨r, hr, hrm⟩ := h.exists_of_mem_right hm
    exact ⟨r, hr, hrm.holds.mpr hres⟩

theorem refines_negation {cr : RuleResult} {m : Meaning} (h : Refines cr m) :
    Refines {
      result  := !cr.result
      matched := cr.matched
      failing := if cr.result then [] else dedupe_ids (cr.matched ++ cr.failing)
    } m.negation where
  holds := by
    change (!cr.result) = true ↔ ¬m.holds
    rw [← h.holds]
    simp
  touched := h.touched
  blamed id := by
    change id ∈ ite _ _ _ ↔ ¬m.holds ∧ id ∈ m.evidence
    rw [← h.holds, ← h.evidence]
    split
    case isTrue hr  => simp [hr]
    case isFalse hr => rw [mem_dedupe_ids, and_iff_right hr]

theorem refines_implication {ar br : RuleResult} {a b : Meaning} {result : Bool}
    (ha : Refines ar a) (hb : Refines br b) (hresult : result = (!ar.result || br.result)) :
    Refines {
      result
      matched := dedupe_ids (ar.matched ++ br.matched)
      failing :=
        if result then []
        else dedupe_ids (ar.matched ++ ar.failing ++ br.matched ++ br.failing)
    } (.implication a b) := by
  have hholds : result = true ↔ (a.holds → b.holds) := by
    rw [hresult, ← ha.holds, ← hb.holds]
    cases ar.result <;> simp
  constructor
  case holds   => exact hholds
  case touched =>
    intro id
    rw [mem_dedupe_ids, List.mem_append, ha.touched, hb.touched]
    rfl
  case blamed =>
    intro id
    change id ∈ ite _ _ _ ↔ ¬(a.holds → b.holds) ∧ (id ∈ a.evidence ∨ id ∈ b.evidence)
    rw [← hholds, ← ha.evidence, ← hb.evidence]
    split
    case isTrue hr  => simp [hr]
    case isFalse hr =>
      rw [mem_dedupe_ids, and_iff_right hr, List.append_assoc, List.mem_append]

theorem refines_every {events : List TraceEvent} {results : List RuleResult}
    {m : TraceEvent → Meaning} (h : List.Forall₂ (fun e r => Refines r (m e)) events results) :
    Refines {
      result  := results.filter (fun r => !r.result) = []
      matched := ids events
      failing := dedupe_ids <|
        (results.filter fun r => !r.result).flatMap fun r => r.matched ++ r.failing
    } (.every events m) where
  holds := by
    change decide _ = true ↔ ∀ e ∈ events, (m e).holds
    rw [decide_eq_true_iff, List.filter_eq_nil_iff]
    constructor
    · intro hall e he
      obtain ⟨r, hr, hrm⟩ := h.exists_of_mem_left he
      exact hrm.holds.mp <| by simpa using hall r hr
    · intro hall r hr
      obtain ⟨e, he, hrm⟩ := h.exists_of_mem_right hr
      simpa using hrm.holds.mpr <| hall e he
  touched _ := Iff.rfl
  blamed id := by
    rw [mem_dedupe_ids, List.mem_flatMap]
    constructor
    · rintro ⟨r, hmem, hid⟩
      obtain ⟨hmem, hfail⟩ := List.mem_filter.mp hmem
      obtain ⟨e, he, hrm⟩ := h.exists_of_mem_right hmem
      refine ⟨e, he, ?_, hrm.evidence id |>.mp hid⟩
      rw [← hrm.holds]
      simpa using hfail
    · rintro ⟨e, he, hfail, hid⟩
      obtain ⟨r, hmem, hrm⟩ := h.exists_of_mem_left he
      refine ⟨r, List.mem_filter.mpr ⟨hmem, ?_⟩, hrm.evidence id |>.mpr hid⟩
      rw [← hrm.holds] at hfail
      simpa using hfail

theorem refines_leaf (holds : Prop) [Decidable holds] (touched blamed : List TraceEvent)
    {value : Option Int} :
    Refines ⟨holds, ids touched, ids blamed, value⟩ (.leaf holds touched blamed) where
  holds     := decide_eq_true_iff
  touched _ := Iff.rfl
  blamed _  := Iff.rfl

-- The evaluation of a rule computes its meaning.
theorem eval_refines (h : x.eval_node left anchor rule = .ok r) :
    Refines r (x.meaning left anchor rule) := by
  induction left generalizing anchor rule r with
  | zero         => cases h
  | succ left ih =>
    obtain ⟨node, rfl, he⟩ := explained h
    cases he with
    | @compound _ _ results _ hop hcompound hrules heval hresult =>
      have hms := List.forall₂_map_right_iff (f := x.meaning left anchor) |>.mpr <|
        heval.flip.imp fun _ _ => ih
      rw [meaning, hop]
      rcases hcompound with rfl | rfl <;> dsimp only <;> rw [hrules] <;>
        refine refines_group hms ?_ <;> rw [hresult]
      · rw [if_pos rfl]
        exact all_iff hms
      · rw [if_neg (by decide)]
        exact any_iff hms
    | negation hop heval =>
      rw [meaning, hop]
      exact refines_negation <| ih heval
    | implication hop hrules ha hb hresult =>
      rw [meaning, hop]
      dsimp only
      rw [hrules]
      exact refines_implication (ih ha) (ih hb) hresult
    | every hop heval hfailed =>
      rw [meaning, hop, hfailed]
      exact refines_every <| heval.imp fun _ _ => ih
    | within hop =>
      rw [meaning, hop]
      exact refines_leaf (x.selection .within_ms anchor node ≠ []) _ []
    | @anchored op hop hanchored =>
      rw [meaning, hop]
      simp only [List.mem_cons, List.not_mem_nil, or_false] at hanchored
      rcases hanchored with rfl | rfl | rfl <;> exact refines_leaf _ _ _
    | «exists» hop =>
      rw [meaning, hop]
      exact refines_leaf (x.selection .exists anchor node ≠ []) _ []
    | never hop =>
      rw [meaning, hop]
      exact refines_leaf _ _ _
    | count hop =>
      rw [meaning, hop]
      exact refines_leaf True _ []

-- The events that a result names one by one, as often as they are found.
def listed (x : Context) : ℕ → Option TraceEvent → Json → List TraceEvent
  | left + 1, anchor, .obj node =>
    match op? node with
    | none | some .and | some .or | some .implies => []
    | some .not                                   => listed x left anchor (get node "rule")
    | some op                                     => x.selection op anchor node
  | _, _, _ => []

-- The events that it blames one by one.
def missed (x : Context) (anchor : Option TraceEvent) (node : Node) : List TraceEvent :=
  match op? node with
  | some .exists_before        => x.near_misses .exists_before anchor node
  | some .exists_after         => x.near_misses .exists_after anchor node
  | some .immediately_precedes => x.near_misses .immediately_precedes anchor node
  | _                          => []

-- A negated rule holds, or it names no event.
def Conclusive (x : Context) (left : ℕ) (anchor : Option TraceEvent) (node : Node) : Prop :=
  op? node = some .not →
    (x.meaning left anchor (get node "rule")).holds ∨
      (x.meaning left anchor (get node "rule")).evidence = ∅

theorem nodup_dedupe_ids {l : List String} : (dedupe_ids l).Nodup := by
  induction hn : l.length using Nat.strong_induction_on generalizing l with
  | _ n ih =>
    cases l with
    | nil       => exact .nil
    | cons a as =>
      have hlt : (as.filter fun b => !b == a).length < n :=
        hn ▸ Nat.lt_succ_of_le (List.length_filter_le _ as)
      rw [dedupe_ids, List.eraseDups_cons, List.nodup_cons]
      refine ⟨fun ha => ?_, ih _ hlt rfl⟩
      simpa using (List.mem_filter.mp <| List.mem_eraseDups.mp ha).right

theorem matched_nodup_iff (h : x.eval_node left anchor rule = .ok r) :
    r.matched.Nodup ↔ (ids (x.listed left anchor rule)).Nodup := by
  induction left generalizing anchor rule r with
  | zero         => cases h
  | succ left ih =>
    obtain ⟨node, rfl, he⟩ := explained h
    cases he with
    | compound hop hcompound =>
      rw [listed, hop]
      rcases hcompound with rfl | rfl <;> exact iff_of_true nodup_dedupe_ids .nil
    | negation hop heval =>
      have hchild := ih heval
      rw [listed, hop]
      exact hchild
    | implication hop =>
      rw [listed, hop]
      exact iff_of_true nodup_dedupe_ids .nil
    | @anchored op hop hanchored =>
      rw [listed, hop]
      simp only [List.mem_cons, List.not_mem_nil, or_false] at hanchored
      rcases hanchored with rfl | rfl | rfl <;> rfl
    | every hop | within hop | «exists» hop | never hop | count hop => rw [listed, hop]

-- What a result of the rule is to be.
structure Evident (events : List TraceEvent) (r : RuleResult) : Prop where
  matched : r.matched.Nodup
  failing : r.failing.Nodup
  named   : ∀ id ∈ r.matched ++ r.failing, id ∈ ids events
  quiet   : r.result = true → r.failing = []

theorem failing_nodup_iff (h : x.eval_node (left + 1) anchor (.obj node) = .ok r)
    (hmatched : r.matched.Nodup) : r.failing.Nodup ↔ (ids (x.missed anchor node)).Nodup := by
  obtain ⟨_, hnode, he⟩ := explained h
  cases hnode
  cases he with
  | compound hop hcompound =>
    rw [missed, hop]
    rcases hcompound with rfl | rfl <;>
      exact iff_of_true (by split <;> simp [nodup_dedupe_ids]) .nil
  | negation hop | implication hop =>
    rw [missed, hop]
    exact iff_of_true (by split <;> simp [nodup_dedupe_ids]) .nil
  | every hop =>
    rw [missed, hop]
    exact iff_of_true nodup_dedupe_ids .nil
  | @anchored op hop hanchored =>
    rw [missed, hop]
    simp only [List.mem_cons, List.not_mem_nil, or_false] at hanchored
    rcases hanchored with rfl | rfl | rfl <;> rfl
  | never hop =>
    rw [missed, hop]
    exact iff_of_true hmatched .nil
  | within hop | «exists» hop | count hop =>
    rw [missed, hop]
    rfl

theorem quiet_iff (h : x.eval_node (left + 1) anchor (.obj node) = .ok r) :
    (r.result = true → r.failing = []) ↔ x.Conclusive left anchor node := by
  obtain ⟨_, hnode, he⟩ := explained h
  cases hnode
  have hother : op? node ≠ some .not → (r.result = true → r.failing = []) →
      ((r.result = true → r.failing = []) ↔ x.Conclusive left anchor node) :=
    fun hop hquiet => iff_of_true hquiet fun h => absurd h hop
  cases he with
  | negation hop heval =>
    have href := eval_refines heval
    rw [Conclusive, hop, ← href.holds, ← href.evidence_eq_nil_iff]
    rename_i cr
    cases cr.result with
    | true  => simp
    | false =>
      have hnil : dedupe_ids (cr.matched ++ cr.failing) = [] ↔ cr.matched ++ cr.failing = [] := by
        simp only [List.eq_nil_iff_forall_not_mem, mem_dedupe_ids]
      simp only [Bool.not_false, Bool.false_eq_true, if_false, forall_const, false_or]
      exact hnil
  | compound hop hcompound =>
    refine hother ?_ fun hr => if_pos hr
    rw [hop]
    rcases hcompound with rfl | rfl <;> decide
  | implication hop => exact hother (by rw [hop]; decide) fun hr => if_pos hr
  | every hop       =>
    refine hother (by rw [hop]; decide) fun hr => ?_
    rw [decide_eq_true_iff.mp hr]
    rfl
  | @anchored op hop hanchored =>
    refine hother ?_ fun hr => ?_
    · rw [hop]
      simp only [List.mem_cons, List.not_mem_nil, or_false] at hanchored
      rcases hanchored with rfl | rfl | rfl <;> decide
    · dsimp only
      rw [near_misses, if_neg (decide_eq_true_iff.mp hr)]
      rfl
  | never hop       =>
    refine hother (by rw [hop]; decide) fun hr => ?_
    dsimp only
    rw [decide_eq_true_iff.mp hr]
    rfl
  | within hop | «exists» hop | count hop => exact hother (by rw [hop]; decide) fun _ => rfl

end Context

-- The ids in a result are those of events, once each, and a rule that holds blames no event, unless
-- ids repeat among the events found or the rule negates one that fails on some event.
theorem evidence_exact {lang : Predicates.Language} {rule : Node} {events : List TraceEvent}
    {anchor : Option TraceEvent} {r : RuleResult}
    (h : evaluate_rule lang rule events anchor = .ok r) :
    Context.Evident events r ↔
      (ids (Context.listed ⟨lang, events⟩ MAX_DEPTH anchor (.obj rule))).Nodup ∧
      (ids (Context.missed ⟨lang, events⟩ anchor rule)).Nodup ∧
      Context.Conclusive ⟨lang, events⟩ (MAX_DEPTH - 1) anchor rule := by
  have hmatched := Context.matched_nodup_iff h
  have hfailing := Context.failing_nodup_iff h
  have hquiet := Context.quiet_iff h
  constructor
  case mp =>
    intro he
    exact ⟨hmatched.mp he.matched, (hfailing he.matched).mp he.failing, hquiet.mp he.quiet⟩
  case mpr =>
    rintro ⟨hm, hf, hq⟩
    exact ⟨hmatched.mpr hm, (hfailing <| hmatched.mpr hm).mpr hf,
      fun id => Context.mem_ids_of_eval h, hquiet.mpr hq⟩

namespace Negated

-- There is an error after all.
def rule : Node :=
  [("op", .str "not"), ("rule", .obj [("op", .str "never"), ("match", .obj [("event", .str "error")])])]

def events : List TraceEvent :=
  [Tied.failure]

theorem evaluates : evaluate_rule Tied.lang rule events none =
    .ok ⟨true, ["failure"], ["failure"], none⟩ := by
  decide +kernel

theorem never_evaluates : evaluate_rule Tied.lang
    [("op", .str "never"), ("match", .obj [("event", .str "error")])] events none =
    .ok ⟨false, ["failure"], ["failure"], none⟩ := by
  decide +kernel

end Negated

theorem not_evidence_exact :
    ¬∀ (lang : Predicates.Language) (rule : Node) (events : List TraceEvent)
      (anchor : Option TraceEvent) (r : RuleResult),
      evaluate_rule lang rule events anchor = .ok r → Context.Evident events r := by
  intro h
  cases (h _ _ _ _ _ Negated.evaluates).quiet rfl

theorem evidence_exact_never :
    Context.Evident Negated.events ⟨false, ["failure"], ["failure"], none⟩ := by
  refine (evidence_exact Negated.never_evaluates).mpr ⟨by decide +kernel, .nil, ?_⟩
  intro hop
  exact absurd hop (by decide)

end TraceRules
