import Traceline.TraceRules.Theorems.Order

namespace TraceRules

open Events Except
open Evaluators (RuleResult sort_key dedupe_ids)

-- Two results with one verdict and the same sets of matched and of failing events.
structure Same (r r' : RuleResult) : Prop where
  result  : r.result = r'.result
  value   : r.value = r'.value
  matched : ∀ id, id ∈ r.matched ↔ id ∈ r'.matched
  failing : ∀ id, id ∈ r.failing ↔ id ∈ r'.failing

namespace Same

variable {r r' r'' : RuleResult}

theorem symm (h : Same r r') : Same r' r where
  result     := h.result.symm
  value      := h.value.symm
  matched id := (h.matched id).symm
  failing id := (h.failing id).symm

theorem trans (h : Same r r') (h' : Same r' r'') : Same r r'' where
  result     := h.result.trans h'.result
  value      := h.value.trans h'.value
  matched id := (h.matched id).trans (h'.matched id)
  failing id := (h.failing id).trans (h'.failing id)

end Same

theorem mem_dedupe_ids {id : String} {l : List String} : id ∈ dedupe_ids l ↔ id ∈ l :=
  List.mem_eraseDups

section Results

variable {rs rs' : List RuleResult}

theorem all_eq (h : Setwise Same rs rs') : rs.all (·.result) = rs'.all (·.result) := by
  rw [Bool.eq_iff_iff, List.all_eq_true, List.all_eq_true]
  constructor
  · intro hall r' hr'
    have ⟨r, hr, hs⟩ := h.right r' hr'
    exact hs.result ▸ hall r hr
  · intro hall r hr
    have ⟨r', hr', hs⟩ := h.left r hr
    exact hs.result ▸ hall r' hr'

theorem any_eq (h : Setwise Same rs rs') : rs.any (·.result) = rs'.any (·.result) := by
  rw [Bool.eq_iff_iff, List.any_eq_true, List.any_eq_true]
  constructor
  · rintro ⟨r, hr, hres⟩
    have ⟨r', hr', hs⟩ := h.left r hr
    exact ⟨r', hr', hs.result ▸ hres⟩
  · rintro ⟨r', hr', hres⟩
    have ⟨r, hr, hs⟩ := h.right r' hr'
    exact ⟨r, hr, hs.result ▸ hres⟩

theorem mem_flatMap_iff {f : RuleResult → List String} (h : Setwise Same rs rs')
    (hf : ∀ r r', Same r r' → ∀ id, id ∈ f r ↔ id ∈ f r') (id : String) :
    id ∈ rs.flatMap f ↔ id ∈ rs'.flatMap f := by
  rw [List.mem_flatMap, List.mem_flatMap]
  constructor
  · rintro ⟨r, hr, hid⟩
    have ⟨r', hr', hs⟩ := h.left r hr
    exact ⟨r', hr', (hf r r' hs id).mp hid⟩
  · rintro ⟨r', hr', hid⟩
    have ⟨r, hr, hs⟩ := h.right r' hr'
    exact ⟨r, hr, (hf r r' hs id).mpr hid⟩

-- The results that fail.
theorem failed_setwise (h : Setwise Same rs rs') :
    Setwise Same (rs.filter fun r => !r.result) (rs'.filter fun r => !r.result) := by
  constructor
  · intro r hr
    have ⟨hr, hf⟩ := List.mem_filter.mp hr
    have ⟨r', hr', hs⟩ := h.left r hr
    exact ⟨r', List.mem_filter.mpr ⟨hr', hs.result ▸ hf⟩, hs⟩
  · intro r' hr'
    have ⟨hr', hf⟩ := List.mem_filter.mp hr'
    have ⟨r, hr, hs⟩ := h.right r' hr'
    exact ⟨r, List.mem_filter.mpr ⟨hr, hs.result ▸ hf⟩, hs⟩

theorem setwise_eq_nil (h : Setwise Same rs rs') : rs = [] ↔ rs' = [] := by
  constructor
  · rintro rfl
    refine List.eq_nil_iff_forall_not_mem.mpr fun r' hr' => ?_
    have ⟨_, hr, _⟩ := h.right r' hr'
    cases hr
  · rintro rfl
    refine List.eq_nil_iff_forall_not_mem.mpr fun r hr => ?_
    have ⟨_, hr', _⟩ := h.left r hr
    cases hr'

theorem mem_evidence {r r' : RuleResult} (h : Same r r') (id : String) :
    id ∈ r.matched ++ r.failing ↔ id ∈ r'.matched ++ r'.failing := by
  rw [List.mem_append, List.mem_append, h.matched, h.failing]

end Results

theorem mem_ids_iff {l l' : List TraceEvent} (h : ∀ e, e ∈ l ↔ e ∈ l') (id : String) :
    id ∈ ids l ↔ id ∈ ids l' := by
  unfold ids
  rw [List.mem_map, List.mem_map]
  exact exists_congr fun e => and_congr_left fun _ => h e

theorem mem_ids_iff_of_perm {l l' : List TraceEvent} (h : l.Perm l') {id : String} :
    id ∈ ids l ↔ id ∈ ids l' :=
  (h.map _).mem_iff

theorem eq_nil_iff_of_perm {l l' : List TraceEvent} (h : l.Perm l') : l = [] ↔ l' = [] := by
  rw [← List.length_eq_zero_iff, ← List.length_eq_zero_iff, h.length_eq]

namespace Context

variable {x x' : Context} {anchor : TraceEvent} {a b e : TraceEvent}
variable {candidates candidates' : List TraceEvent} {node pattern : Node}

theorem mem_of_sort_events {l out : List TraceEvent} (h : Evaluators.sort_events l = .ok out)
    (he : e ∈ out) : e ∈ l := by
  unfold Evaluators.sort_events at h
  split at h
  · cases h
    exact (List.mergeSort_perm ..).mem_iff.mp he
  · cases h

theorem mem_of_in_window {anchor : Option TraceEvent} {window : Option Int}
    {l out : List TraceEvent} (h : x.in_window anchor window l = .ok out) (he : e ∈ out) :
    e ∈ l := by
  cases window with
  | none   =>
    cases h
    exact he
  | some _ =>
    obtain ⟨start, -, h⟩ := bind_eq_ok_iff.mp h
    exact mem_of_mem_filter h he

theorem mem_of_matching {anchor : Option TraceEvent} {window : Option Int}
    (h : x.matching pattern anchor window = .ok candidates) (he : e ∈ candidates) :
    e ∈ x.events := by
  unfold matching at h
  dsimp only at h
  split at h
  case isTrue  => cases h
  case isFalse =>
    obtain ⟨out, hout, h⟩ := bind_eq_ok_iff.mp h
    obtain ⟨out', hout', h⟩ := bind_eq_ok_iff.mp h
    cases hs : Evaluators.sort_events out' with
    | error _ =>
      rw [hs] at h
      cases h
    | ok out'' =>
      rw [hs] at h
      cases h
      exact mem_of_mem_filter hout <| mem_of_in_window hout' <| mem_of_sort_events hs he

theorem mem_of_candidates {anchor : Option TraceEvent} (h : x.candidates anchor node = .ok candidates)
    (he : e ∈ candidates) : e ∈ x.events := by
  unfold Context.candidates at h
  split at h
  · cases h
  · split at h
    · cases h
    · exact mem_of_matching h he

-- Of several events that tie for the latest one before the anchor, none is a candidate.
def Untied (x : Context) (anchor : TraceEvent) (candidates : List TraceEvent) : Prop :=
  x.Comparable anchor x.events →
    (∀ a b, x.Best anchor x.events a → x.Best anchor x.events b → a = b) ∨
    ∀ a ∈ candidates, ¬ x.Best anchor x.events a

-- The candidates with the id of the latest event before the anchor.
theorem mem_of_best (hu : (ids x.events).Nodup) (hc : ∀ e ∈ candidates, e ∈ x.events)
    (hb : x.Best anchor x.events b) :
    e ∈ candidates.filter (·.event_id = b.event_id) ↔ e ∈ candidates ∧ e = b := by
  rw [List.mem_filter, decide_eq_true_iff]
  exact and_congr_right fun he =>
    ⟨eq_of_id_eq hu (hc e he) hb.mem, fun h => h ▸ rfl⟩

theorem later_total (x : Context) (anchor : TraceEvent) :
    (∃ best, x.events.foldlM (x.later anchor) none = .ok best ∧ x.Comparable anchor x.events ∧
      x.Kept anchor x.events best) ∨
    (∃ err, x.events.foldlM (x.later anchor) none = .error err) ∧
      ¬ x.Comparable anchor x.events :=
  have hc : x.Comparable anchor [] := fun _ he => absurd he List.not_mem_nil
  have hk : x.Kept anchor [] none := fun _ he => absurd he List.not_mem_nil
  later_run hc hk

namespace Reordered

variable (h : x.Reordered x')

include h

theorem rival : x.Rival anchor e ↔ x'.Rival anchor e := by
  constructor <;> rintro ⟨ho, hd⟩
  · exact ⟨ho, h.is_ancestor ▸ hd⟩
  · exact ⟨ho, h.is_ancestor ▸ hd⟩

theorem prior : x.Prior anchor e ↔ x'.Prior anchor e :=
  ⟨fun hp => ⟨h.rival.mp hp.toRival, hp.earlier⟩, fun hp => ⟨h.rival.mpr hp.toRival, hp.earlier⟩⟩

theorem comparable (hc : x.Comparable anchor x.events) : x'.Comparable anchor x'.events :=
  fun e he hr => hc e (h.perm.mem_iff.mpr he) (h.rival.mpr hr)

theorem best (hb : x.Best anchor x.events b) : x'.Best anchor x'.events b where
  mem        := h.perm.mem_iff.mp hb.mem
  prior      := h.prior.mp hb.prior
  le e he hp := hb.le e (h.perm.mem_iff.mpr he) (h.prior.mpr hp)

-- The latest event before the anchor is found in any order, unless it ties with a candidate.
theorem immediate_predecessors (hc : ∀ e ∈ candidates, e ∈ x.events)
    (hp : candidates.Perm candidates')
    (hu : anchor.parent_event_id = none → x.Untied anchor candidates) :
    Both (fun l l' => ∀ e, e ∈ l ↔ e ∈ l') (x.immediate_predecessors candidates anchor)
      (x'.immediate_predecessors candidates' anchor) := by
  have hc' : ∀ e ∈ candidates', e ∈ x'.events :=
    fun e he => h.perm.mem_iff.mp <| hc e <| hp.mem_iff.mpr he
  unfold Context.immediate_predecessors
  cases hparent : anchor.parent_event_id with
  | some parent => exact .ok fun e => (hp.filter _).mem_iff
  | none        =>
    dsimp only
    rcases x.later_total anchor with ⟨best, hb, hcmp, hk⟩ | ⟨⟨err, he⟩, hn⟩
    case inr =>
      rcases x'.later_total anchor with ⟨_, _, hcmp, _⟩ | ⟨⟨err', he'⟩, _⟩
      · exact absurd (h.symm.comparable hcmp) hn
      · rw [he, he']
        exact .error
    case inl =>
      rcases x'.later_total anchor with ⟨best', hb', _, hk'⟩ | ⟨_, hn⟩
      case inr => exact absurd (h.comparable hcmp) hn
      case inl =>
        rw [hb, hb']
        cases best with
        | none      =>
          cases best' with
          | none       => exact .ok fun _ => .rfl
          | some best' =>
            exact absurd (h.prior.mpr hk'.prior) (hk best' <| h.perm.mem_iff.mpr hk'.mem)
        | some best =>
          cases best' with
          | none       => exact absurd (h.prior.mp hk.prior) (hk' best <| h.perm.mem_iff.mp hk.mem)
          | some best' =>
            refine .ok fun e => ?_
            rw [mem_of_best h.unique hc hk, mem_of_best h.symm.unique hc' hk', hp.mem_iff]
            rcases hu hparent hcmp with heq | hnone
            · rw [heq best best' hk (h.symm.best hk')]
            · constructor
              · rintro ⟨he, rfl⟩
                exact absurd hk <| hnone e <| hp.mem_iff.mpr he
              · rintro ⟨he, rfl⟩
                exact absurd (h.symm.best hk') <| hnone e <| hp.mem_iff.mpr he

variable {eval eval' : Children} {anchor : Option TraceEvent} {op : Op}

omit h in
theorem eval_and_or (he : ∀ rules, children? node = some rules → ∀ rule ∈ rules,
    Both Same (eval anchor rule) (eval' anchor rule)) :
    Both Same (x.eval_and_or eval op anchor node) (x'.eval_and_or eval' op anchor node) := by
  unfold Context.eval_and_or
  cases hr : children? node with
  | none       => exact .error
  | some rules =>
    refine (Both.mapM_setwise (fun _ => .rfl) (he rules hr)).bind fun rs rs' _ _ hs => .ok ?_
    have hres : (if op = .and then rs.all (·.result) else rs.any (·.result)) =
        if op = .and then rs'.all (·.result) else rs'.any (·.result) := by
      rw [all_eq hs, any_eq hs]
    refine ⟨hres, rfl, fun id => ?_, fun id => ?_⟩
    · rw [mem_dedupe_ids, mem_dedupe_ids]
      exact mem_flatMap_iff hs (fun _ _ h => h.matched) id
    · dsimp only
      rw [hres]
      generalize (if op = .and then rs'.all (·.result) else rs'.any (·.result)) = result
      cases result
      case true  => exact .rfl
      case false =>
        change id ∈ dedupe_ids _ ↔ id ∈ dedupe_ids _
        rw [mem_dedupe_ids, mem_dedupe_ids]
        exact mem_flatMap_iff (failed_setwise hs) (fun _ _ => mem_evidence) id

omit h in
theorem eval_not (he : ∀ rule, object? node "rule" = some rule →
    Both Same (eval anchor (.obj rule)) (eval' anchor (.obj rule))) :
    Both Same (Context.eval_not eval anchor node) (Context.eval_not eval' anchor node) := by
  unfold Context.eval_not
  cases hr : object? node "rule" with
  | none      => exact .error
  | some rule =>
    refine (he rule hr).bind fun r r' _ _ hs => .ok ⟨?_, rfl, hs.matched, fun id => ?_⟩
    · exact congrArg (!·) hs.result
    · dsimp only
      rw [hs.result]
      split
      · exact .rfl
      · rw [mem_dedupe_ids, mem_dedupe_ids]
        exact mem_evidence hs id

omit h in
theorem eval_implies (he : ∀ rule consequent, object? node "rule" = some rule →
    get node "rules" = .arr [consequent] →
    Both Same (eval anchor (.obj rule)) (eval' anchor (.obj rule)) ∧
      Both Same (eval anchor consequent) (eval' anchor consequent)) :
    Both Same (Context.eval_implies eval anchor node) (Context.eval_implies eval' anchor node) := by
  unfold Context.eval_implies
  cases hr : object? node "rule" with
  | none      => exact .error
  | some rule =>
    dsimp only
    split
    case h_2                => exact .error
    case h_1 consequent hrs =>
      have ⟨ha, hc⟩ := he rule consequent hr hrs
      refine ha.bind fun r r' _ _ hs => hc.bind fun c c' _ _ hs' => .ok ⟨?_, rfl, ?_, ?_⟩
      · exact congrArg₂ (fun a b => !a || b) hs.result hs'.result
      · intro id
        rw [mem_dedupe_ids, mem_dedupe_ids, List.mem_append, List.mem_append, hs.matched,
          hs'.matched]
      · intro id
        dsimp only
        rw [hs.result, hs'.result]
        split
        · exact .rfl
        · simp only [mem_dedupe_ids, List.mem_append, hs.matched, hs'.matched, hs.failing,
            hs'.failing]

theorem eval_for_all (he : ∀ pattern rule window candidates, object? node "match" = some pattern →
    object? node "assert" = some rule → window? (get node "within_ms") = some window →
    x.matching pattern anchor window = .ok candidates → ∀ e ∈ candidates,
    Both Same (eval (some e) (.obj rule)) (eval' (some e) (.obj rule))) :
    Both Same (x.eval_for_all eval anchor node) (x'.eval_for_all eval' anchor node) := by
  unfold Context.eval_for_all
  cases hp : object? node "match" with
  | none         => exact .error
  | some pattern =>
    cases hr : object? node "assert" with
    | none      => exact .error
    | some rule =>
      dsimp only
      cases hw : window? (get node "within_ms") with
      | none        => exact .error
      | some window =>
        refine h.matching.bind fun cs cs' hcs _ hperm => ?_
        refine (Both.mapM_setwise (fun _ => hperm.mem_iff) <|
          he pattern rule window cs hp hr hw hcs).bind fun rs rs' _ _ hs => .ok ?_
        have hf := failed_setwise hs
        refine ⟨?_, rfl, fun _ => mem_ids_iff_of_perm hperm, fun id => ?_⟩
        · exact decide_eq_decide.mpr (setwise_eq_nil hf)
        · rw [mem_dedupe_ids, mem_dedupe_ids]
          exact mem_flatMap_iff hf (fun _ _ => mem_evidence) id

theorem eval_within_ms :
    Both Same (x.eval_within_ms anchor node) (x'.eval_within_ms anchor node) := by
  unfold Context.eval_within_ms
  split
  · refine h.matching.bind fun cs cs' _ _ hp =>
      .ok ⟨?_, rfl, fun _ => mem_ids_iff_of_perm hp, fun _ => .rfl⟩
    exact decide_eq_decide.mpr (not_congr <| eq_nil_iff_of_perm hp)
  · exact .error

theorem eval_anchored (hu : op = .immediately_precedes → ∀ a, anchor = some a →
    a.parent_event_id = none → ∀ candidates, x.candidates (some a) node = .ok candidates →
    x.Untied a candidates) (hop : op ∈ [Op.exists_before, .exists_after, .immediately_precedes]) :
    Both Same (x.eval_anchored op anchor node) (x'.eval_anchored op anchor node) := by
  cases anchor with
  | none   => exact .error
  | some a =>
    refine h.candidates.bind fun cs cs' hcs _ hp => ?_
    have hfound : Both (fun l l' => ∀ e, e ∈ l ↔ e ∈ l') (x.satisfying op cs a)
        (x'.satisfying op cs' a) := by
      simp only [List.mem_cons, List.not_mem_nil, or_false] at hop
      rcases hop with rfl | rfl | rfl
      · unfold satisfying
        rw [h.precedes]
        exact (Both.filter_perm _ hp).mono fun _ _ h _ => h.mem_iff
      · unfold satisfying
        rw [h.follows]
        exact (Both.filter_perm _ hp).mono fun _ _ h _ => h.mem_iff
      · exact h.immediate_predecessors (fun _ => mem_of_candidates hcs) hp
          fun hparent => hu rfl a rfl hparent cs hcs
    refine hfound.bind fun l l' _ _ hl => .ok ?_
    have hnil : l = [] ↔ l' = [] := by
      simp only [List.eq_nil_iff_forall_not_mem, hl]
    refine ⟨decide_eq_decide.mpr (not_congr hnil), rfl, mem_ids_iff hl, fun id => ?_⟩
    dsimp only
    simp only [hnil]
    split
    · exact mem_ids_iff_of_perm hp
    · exact .rfl

theorem eval_match_bearing :
    Both Same (x.eval_match_bearing op anchor node) (x'.eval_match_bearing op anchor node) := by
  refine h.candidates.bind fun cs cs' _ _ hp => ?_
  have hids (id : String) : id ∈ ids cs ↔ id ∈ ids cs' := mem_ids_iff_of_perm hp
  split
  · exact .ok ⟨decide_eq_decide.mpr (not_congr <| eq_nil_iff_of_perm hp), rfl, hids, fun _ => .rfl⟩
  · refine .ok ⟨decide_eq_decide.mpr (eq_nil_iff_of_perm hp), rfl, hids, fun id => ?_⟩
    dsimp only
    simp only [eq_nil_iff_of_perm hp]
    split
    · exact .rfl
    · exact hids id
  · exact .ok ⟨rfl, by rw [hp.length_eq], hids, fun _ => .rfl⟩

end Reordered

-- At every `immediately_precedes` that is visited with an anchor that names no parent, no candidate
-- ties for the latest event before the anchor.
def Settled (x : Context) (v : Visit) : Prop :=
  ∀ left anchor node, x.Visits v ⟨left + 1, some anchor, .obj node⟩ →
    op? node = some .immediately_precedes → anchor.parent_event_id = none →
    ∀ candidates, x.candidates (some anchor) node = .ok candidates → x.Untied anchor candidates

-- Where no two events have the same timestamp and sequence, there are no ties.
theorem Settled.of_keys {v : Visit} (hk : (x.events.map sort_key).Nodup) : x.Settled v := by
  refine fun _ _ _ _ _ _ _ _ _ => .inl fun a b ha hb => ?_
  exact List.inj_on_of_nodup_map hk ha.mem hb.mem <|
    le_antisymm (hb.le a ha.mem ha.prior) (ha.le b hb.mem hb.prior)

theorem Settled.of_calls {v v' : Visit} (h : x.Settled v) (hc : x.Calls v v') : x.Settled v' :=
  fun left anchor node hv => h left anchor node (.head hc hv)

theorem Reordered.eval {left : ℕ} {anchor : Option TraceEvent} {rule : Json} (h : x.Reordered x')
    (hs : x.Settled ⟨left, anchor, rule⟩) :
    Both Same (x.eval_node left anchor rule) (x'.eval_node left anchor rule) := by
  induction left generalizing anchor rule with
  | zero         => exact .error
  | succ left ih =>
    cases rule with
    | null | bool _ | int _ | float _ | str _ | arr _ => exact .error
    | obj node                                        =>
      rw [eval_node, eval_node]
      cases hop : op? node with
      | none    => exact .error
      | some op =>
        cases op with
        | and | or =>
          exact Reordered.eval_and_or fun rules hr rule hm => ih <| hs.of_calls <|
            .child hop (by simp) hr hm
        | not =>
          exact Reordered.eval_not fun rule hr => ih <| hs.of_calls <| .negated hop hr
        | implies =>
          exact Reordered.eval_implies fun rule consequent hr hrs =>
            ⟨ih <| hs.of_calls <| .antecedent hop hr hrs,
              ih <| hs.of_calls <| .consequent hop hr hrs⟩
        | for_all =>
          exact h.eval_for_all fun pattern rule window candidates hp hr hw hc e he =>
            ih <| hs.of_calls <| .asserted hop hp hr hw hc he
        | within_ms => exact h.eval_within_ms
        | exists_before | exists_after => exact h.eval_anchored (by simp) (by simp)
        | immediately_precedes =>
          refine h.eval_anchored (fun _ a ha => ?_) (by simp)
          subst ha
          exact hs left a node .refl hop
        | «exists» | never | count => exact h.eval_match_bearing

-- The events in another order.
def reorder (x : Context) (events : List TraceEvent) : Context :=
  { x with events }

theorem reordered {events : List TraceEvent} (hu : (ids x.events).Nodup)
    (hp : x.events.Perm events) : x.Reordered (x.reorder events) :=
  ⟨rfl, hp, hu⟩

-- With a latest event at the head of the list, the loop ends with it.
theorem foldlM_head {rest : List TraceEvent} (hu : (ids x.events).Nodup)
    (hp : x.events.Perm (a :: rest)) (hc : x.Comparable anchor x.events)
    (hb : x.Best anchor x.events a) :
    (a :: rest).foldlM ((x.reorder (a :: rest)).later anchor) none = .ok (some a) := by
  have h := reordered hu hp
  have hc' := h.comparable hc
  have hb' := h.best hb
  have ha := hc' a (.head _) hb'.prior.toRival
  rw [List.foldlM_cons, later_first hb'.prior ha]
  exact later_stays ha (fun e he => hc' e <| .tail _ he) fun e he => hb'.le e <| .tail _ he

theorem immediate_predecessors_of_best (hparent : anchor.parent_event_id = none)
    (hb : x.events.foldlM (x.later anchor) none = .ok (some b)) :
    x.immediate_predecessors candidates anchor =
      .ok (candidates.filter (·.event_id = b.event_id)) := by
  unfold Context.immediate_predecessors
  rw [hparent]
  dsimp only
  rw [hb]
  rfl

theorem eval_immediately_precedes (left : ℕ) {found : List TraceEvent}
    (hop : op? node = some .immediately_precedes)
    (hc : x.candidates (some anchor) node = .ok candidates)
    (hf : x.immediate_predecessors candidates anchor = .ok found) :
    ∃ r, x.eval_node (left + 1) (some anchor) (.obj node) = .ok r ∧ r.matched = ids found := by
  rw [eval_node, hop]
  dsimp only
  unfold Context.eval_anchored Context.satisfying
  dsimp only
  rw [hc]
  dsimp only [bind, Except.bind]
  rw [hf]
  exact ⟨_, rfl, rfl⟩

-- What the operator matches where a latest event stands at the head of the list.
theorem eval_head (left : ℕ) {rest : List TraceEvent} (hu : (ids x.events).Nodup)
    (hop : op? node = some .immediately_precedes) (hparent : anchor.parent_event_id = none)
    (hcs : x.candidates (some anchor) node = .ok candidates) (hc : x.Comparable anchor x.events)
    (hb : x.Best anchor x.events a) (hp : x.events.Perm (a :: rest)) :
    ∃ r, (x.reorder (a :: rest)).eval_node (left + 1) (some anchor) (.obj node) = .ok r ∧
      (a ∈ candidates → a.event_id ∈ r.matched) ∧ ∀ id ∈ r.matched, id = a.event_id := by
  have h := reordered hu hp
  have hboth : Both List.Perm (x.candidates (some anchor) node)
      ((x.reorder (a :: rest)).candidates (some anchor) node) := h.candidates
  have ⟨cs, hcs', hperm⟩ := (hcs ▸ hboth).exists_of_ok
  have hfound : (x.reorder (a :: rest)).immediate_predecessors cs anchor =
      .ok (cs.filter (·.event_id = a.event_id)) :=
    immediate_predecessors_of_best hparent (foldlM_head hu hp hc hb)
  have ⟨r, hr, hm⟩ := eval_immediately_precedes left hop hcs' hfound
  refine ⟨r, hr, fun ha => ?_, fun id hid => ?_⟩
  · rw [hm]
    exact List.mem_map.mpr ⟨a, List.mem_filter.mpr ⟨hperm.mem_iff.mp ha, by simp⟩, rfl⟩
  · rw [hm] at hid
    have ⟨e, he, heq⟩ := List.mem_map.mp hid
    rw [← heq]
    simpa using (List.mem_filter.mp he).right

-- Where no other order changes what the operator matches, no candidate ties for the latest event.
theorem untied_of_independent {left : ℕ} (hu : (ids x.events).Nodup)
    (hop : op? node = some .immediately_precedes) (hparent : anchor.parent_event_id = none)
    (hall : ∀ events, x.events.Perm events →
      Both Same (x.eval_node (left + 1) (some anchor) (.obj node))
        ((x.reorder events).eval_node (left + 1) (some anchor) (.obj node)))
    (hcs : x.candidates (some anchor) node = .ok candidates) : x.Untied anchor candidates := by
  intro hc
  by_contra hn
  push Not at hn
  have ⟨⟨a, b, ha, hb, hne⟩, c, hcc, hcb⟩ := hn
  have ⟨d, hd, hdc⟩ : ∃ d, x.Best anchor x.events d ∧ d ≠ c := by
    by_cases hac : a = c
    · exact ⟨b, hb, fun hbc => hne <| hac.trans hbc.symm⟩
    · exact ⟨a, ha, hac⟩
  have hpc := List.perm_cons_erase hcb.mem
  have hpd := List.perm_cons_erase hd.mem
  have ⟨r, hr, hmem, _⟩ := eval_head left hu hop hparent hcs hc hcb hpc
  have ⟨r', hr', _, honly⟩ := eval_head left hu hop hparent hcs hc hd hpd
  have hsame : Both Same (.ok r : Except Error RuleResult) (.ok r' : Except Error RuleResult) := by
    rw [← hr, ← hr']
    exact (hall _ hpc).symm.trans (hall _ hpd) fun _ _ _ h h' => h.symm.trans h'
  have ⟨_, heq, hs⟩ := hsame.exists_of_ok
  cases heq
  have hid := honly _ <| (hs.matched _).mp <| hmem hcc
  exact hdc <| (eq_of_id_eq hu hcb.mem hd.mem hid).symm

end Context

open Context in
-- The verdict and the sets of events are the same in any order, where no candidate of a visited
-- `immediately_precedes` ties for the latest event before its anchor. For a rule that is such a node
-- this is exactly when.
theorem verdict_order_independent (lang : Predicates.Language) (rule : Node)
    (events : List TraceEvent) (anchor : Option TraceEvent) (hu : (ids events).Nodup) :
    (Settled ⟨lang, events⟩ ⟨MAX_DEPTH, anchor, .obj rule⟩ →
      ∀ events', events.Perm events' →
        Both Same (evaluate_rule lang rule events anchor) (evaluate_rule lang rule events' anchor)) ∧
    (op? rule = some .immediately_precedes →
      (∀ events', events.Perm events' →
        Both Same (evaluate_rule lang rule events anchor) (evaluate_rule lang rule events' anchor)) →
      Settled ⟨lang, events⟩ ⟨MAX_DEPTH, anchor, .obj rule⟩) := by
  constructor
  case left  =>
    intro hs events' hp
    have h : Reordered ⟨lang, events⟩ ⟨lang, events'⟩ := ⟨rfl, hp, hu⟩
    exact h.eval hs
  case right =>
    intro hop hall left a node hv _ hparent candidates hcs
    rcases hv.cases_head with heq | ⟨_, hc, _⟩
    · cases heq
      exact untied_of_independent (x := ⟨lang, events⟩) hu hop hparent hall hcs
    · cases hc <;> simp_all

namespace Tied

def call (id tool : String) : TraceEvent where
  event_id          := id
  run_id            := "r"
  workspace_id      := "w"
  case_id           := "c"
  attempt_id        := "a"
  type              := .tool_call
  tool              := tool
  timestamp         := ⟨0, some 0⟩
  tool_typed_column := by simp

def failure : TraceEvent where
  event_id          := "failure"
  run_id            := "r"
  workspace_id      := "w"
  case_id           := "c"
  attempt_id        := "a"
  type              := .error
  timestamp         := ⟨1, some 0⟩
  tool_typed_column := by simp

-- Every error comes right after a call of the tool.
def rule : Node :=
  [("op", .str "for_all"), ("match", .obj [("event", .str "error")]),
    ("assert", .obj [("op", .str "immediately_precedes"),
      ("match", .obj [("event", .str "tool_call"), ("tool", .str "fetch")])])]

def fetch : TraceEvent :=
  call "fetch" "fetch"

def store : TraceEvent :=
  call "store" "store"

def lang : Predicates.Language where
  py              := .ascii
  fromisoformat _ := none
  cel _           := .error (.semantic "no CEL")

end Tied

open Tied in
theorem tie_decides :
    ¬ ∀ (lang : Predicates.Language) (rule : Node) (events events' : List TraceEvent)
      (anchor : Option TraceEvent), (ids events).Nodup → events.Perm events' →
      Both Same (evaluate_rule lang rule events anchor) (evaluate_rule lang rule events' anchor) := by
  intro h
  have hb := h lang rule [fetch, store, failure] [store, fetch, failure] none (by decide)
    (.swap ..)
  have hr : evaluate_rule lang rule [fetch, store, failure] none =
      .ok ⟨true, ["failure"], [], none⟩ := by
    decide +kernel
  have hr' : evaluate_rule lang rule [store, fetch, failure] none =
      .ok ⟨false, ["failure"], ["fetch"], none⟩ := by
    decide +kernel
  rw [hr, hr'] at hb
  have ⟨_, heq, hs⟩ := hb.exists_of_ok
  cases heq
  cases hs.result

open Tied in
theorem verdict_order_independent_fetched :
    Both Same (evaluate_rule lang rule [fetch, failure] none)
      (evaluate_rule lang rule [failure, fetch] none) :=
  (verdict_order_independent lang rule [fetch, failure] none (by decide)).left
    (.of_keys (by decide)) _ (.swap ..)

end TraceRules
