import Mathlib.Algebra.Order.BigOperators.Group.List
import Mathlib.Algebra.Order.Ring.Int
import Traceline.Egress.Theorems.Settlement

namespace Egress

open Prog (Move Pool Trace)
open Prog.Pool (events own own_snoc)

variable {ι : Type}

namespace ProviderRoute

variable {r : ProviderRoute} {l : Limits}

theorem authorize_output_le {c : Codec} {path : String} {body : Fields}
    (h : r.authorize c path body = .ok l) : l.output_tokens ≤ r.max_output_tokens := by
  simp only [authorize] at h
  split at h
  · cases h
  obtain ⟨declared, -, h⟩ := Except.bind_eq_ok_iff.mp h
  split at h
  · cases h
  split at h
  case h_2 => cases h
  split at h
  case isFalse => cases h
  split at h
  · cases h
  case isFalse hd =>
    split at h
    case h_2 => cases h
    split at h
    · cases h
    split at h
    case h_2 => cases h
    split at h
    case h_2 => cases h
    split at h
    case isFalse => cases h
    split at h
    · cases h
    · obtain rfl := Except.ok.inj h
      exact Int.not_lt.mp hd

theorem observed_le {usage : Option Json} {cost : Int} {u : Usage}
    (h : r.observed usage = .ok (cost, u)) (hi : u.prompt_tokens ≤ l.input_tokens)
    (ho : u.completion_tokens ≤ l.output_tokens) (hl : l.output_tokens ≤ r.max_output_tokens) :
    cost ≤ r.worst_case l.input_tokens := by
  simp only [observed] at h
  split at h
  case h_1 => cases h
  case h_2 =>
    split at h
    case h_2 => cases h
    case h_1 =>
      split at h
      case isTrue => cases h
      case isFalse =>
        obtain ⟨rfl, rfl⟩ := Prod.mk.inj <| Except.ok.inj h
        exact Int.add_le_add
          (Int.mul_le_mul_of_nonneg_right hi r.input_price_nonneg)
          (Int.mul_le_mul_of_nonneg_right (Int.le_trans ho hl) r.output_price_nonneg)

end ProviderRoute

namespace Request

variable {r : Request} {l : Limits} {env : ∀ q : sig.Query, sig.Answer q}

-- Every usage the provider reports for the request is within the bounds it was authorized with.
def Within (r : Request) (env : ∀ q : sig.Query, sig.Answer q) : Prop :=
  ∀ l headers status payload cost usage, r.limits? = .ok l →
    env (.send r.body headers) = some (status, payload) → r.Reports payload cost usage →
    usage.prompt_tokens ≤ l.input_tokens ∧ usage.completion_tokens ≤ l.output_tokens

theorem limits?_output_le (h : r.limits? = .ok l) :
    l.output_tokens ≤ r.egress.route.max_output_tokens := by
  obtain ⟨l', hl, h⟩ := Except.bind_eq_ok_iff.mp h
  dsimp only at h
  split at h
  · cases h
  · obtain rfl := Except.ok.inj h
    exact ProviderRoute.authorize_output_le hl

theorem Reports.observed {payload : Payload} {cost : Int} {usage : Usage}
    (h : r.Reports payload cost usage) :
    ∃ reported, r.egress.route.observed reported = .ok (cost, usage) := by
  unfold Reports at h
  split at h
  case isTrue =>
    obtain ⟨events, observed, -, -, ho⟩ := h
    exact ⟨_, ho⟩
  case isFalse =>
    obtain ⟨fields, reported, -, -, ho⟩ := h
    exact ⟨_, ho⟩

end Request

-- What a request may call next, by its own calls so far: it reserves once, gives back what it
-- obtained, at no higher cost, and is recorded after that.
def Orderly (past : List (Event sig)) : Event sig → Prop
  | ⟨.reserve n, _⟩          => past = [] ∧ 0 ≤ n
  | ⟨.commit r cost, _⟩      => (∃ n, past = [⟨.reserve n, .ok r⟩]) ∧ 0 ≤ cost ∧ cost ≤ r
  | ⟨.uncertain (some r), _⟩ => ∃ n, past = [⟨.reserve n, .ok r⟩]
  | ⟨.uncertain none, _⟩     => False
  | ⟨.record _, _⟩           => ∀ n w, past ≠ [⟨.reserve n, .ok w⟩]

theorem Settling.orderly {r : Request} {l : Limits} {w n : Int} {ms : List (Move sig)}
    {answer : Option (Int × Payload)} (h : Settling r l w answer ms)
    (hl : r.limits? = .ok l) (hw : w = r.egress.route.worst_case l.input_tokens)
    (hb : ∀ status payload cost usage, answer = some (status, payload) →
      r.Reports payload cost usage →
      usage.prompt_tokens ≤ l.input_tokens ∧ usage.completion_tokens ≤ l.output_tokens) :
    (ms.filterMap Move.event?).AtEach fun past => Orderly (⟨.reserve n, .ok w⟩ :: past) := by
  cases h with
  | unreachable rec    => simp [Move.event?, Orderly]
  | unmeterable rec hu => simp [Move.event?, Orderly]
  | within rec hr hi ho =>
    obtain ⟨reported, hobs⟩ := hr.observed
    have hle := ProviderRoute.observed_le hobs hi ho <| Request.limits?_output_le hl
    have hnn := ProviderRoute.observed_nonneg hobs
    simp [Move.event?, Orderly, hw, hle, hnn]
  | exceeded rec hr hx => exact absurd (hb _ _ _ _ rfl hr) hx
  | unsettled hu => simp

theorem Course.orderly {r : Request} {env : ∀ q : sig.Query, sig.Answer q} {ms : List (Move sig)}
    (c : Course r env ms) (hb : r.Within env) : (ms.filterMap Move.event?).AtEach Orderly := by
  cases c with
  | denied => simp
  | @refused l w e hl hw =>
    have hn := r.egress.route.worst_case_nonneg l
    simp [Move.event?, Orderly, hw, hn]
  | @unresolved l w hl hw hr =>
    have hn : 0 ≤ w := hw ▸ r.egress.route.worst_case_nonneg l
    simp [List.filterMap_cons, Move.event?, Orderly, hn]
  | @sent l w real ms hl hw hr hne hs =>
    have hn : 0 ≤ w := hw ▸ r.egress.route.worst_case_nonneg l
    have ho := hs.orderly (n := w) hl hw fun status payload cost usage ha hp =>
      hb l _ status payload cost usage hl ha hp
    simpa [List.filterMap_cons, Move.event?, Orderly, hn] using ho

-- The requests of a history that were admitted and have not settled, each with its reservation.
def unsettled [DecidableEq ι] (h : List (ι × Option (Event sig))) : List (ι × Int) :=
  h.foldl next []
where
  next (us : List (ι × Int)) : ι × Option (Event sig) → List (ι × Int)
    | (_, none)   => us
    | (i, some e) =>
      match granted e with
      | some w => us ++ [(i, w)]
      | none   => if e.call.settles.isSome then us.filter (·.1 ≠ i) else us

def outstanding [DecidableEq ι] (h : List (ι × Option (Event sig))) : Int :=
  (unsettled h).map Prod.snd |>.sum

-- The cost a call observed.
def Call.cost : Call → Int
  | .commit _ observed => observed
  | _                  => 0

def committed (es : List (Event sig)) : Int :=
  es.map (·.call.cost) |>.sum

@[simp]
theorem committed_append (es es' : List (Event sig)) :
    committed (es ++ es') = committed es + committed es' := by
  simp [committed]

@[simp]
theorem committed_singleton (e : Event sig) : committed [e] = e.call.cost := by
  simp [committed]

section Unsettled

variable [DecidableEq ι] {h : List (ι × Option (Event sig))} {i j : ι} {e : Event sig} {w : Int}

@[simp]
theorem unsettled_none : unsettled (h ++ [(i, none)]) = unsettled h := by
  simp [unsettled, unsettled.next]

theorem unsettled_granted (he : granted e = some w) :
    unsettled (h ++ [(i, some e)]) = unsettled h ++ [(i, w)] := by
  simp [unsettled, unsettled.next, he]

theorem unsettled_settled (he : granted e = none) (hs : e.call.settles.isSome) :
    unsettled (h ++ [(i, some e)]) = (unsettled h).filter (·.1 ≠ i) := by
  simp [unsettled, unsettled.next, he, hs]

theorem unsettled_other (he : granted e = none) (hs : e.call.settles = none) :
    unsettled (h ++ [(i, some e)]) = unsettled h := by
  simp [unsettled, unsettled.next, he, hs]

-- One entry of a list without duplicate keys accounts for what its removal takes away.
theorem sum_filter_ne {us : List (ι × Int)} (hn : (us.map Prod.fst).Nodup) (hi : (i, w) ∈ us) :
    (us.map Prod.snd).sum = w + ((us.filter (·.1 ≠ i)).map Prod.snd).sum := by
  induction us with
  | nil => cases hi
  | cons u us ih =>
    rw [List.map_cons, List.nodup_cons] at hn
    obtain rfl | hi := List.mem_cons.mp hi
    · have hus : us.filter (·.1 ≠ i) = us :=
        List.filter_eq_self.mpr fun v hv => by
          have hv' : v.1 ∈ us.map Prod.fst := List.mem_map_of_mem hv
          have hne : v.1 ≠ i := fun he => hn.left <| he ▸ hv'
          simpa using hne
      have hui : ((i, w) :: us).filter (·.1 ≠ i) = us.filter (·.1 ≠ i) := by simp
      rw [hui, hus, List.map_cons, List.sum_cons]
    · have hi' : i ∈ us.map Prod.fst := List.mem_map_of_mem (f := Prod.fst) hi
      have hne : u.1 ≠ i := fun he => hn.left <| he ▸ hi'
      simp only [List.map_cons, List.sum_cons, ih hn.right hi]
      simp [hne]
      omega

end Unsettled

-- What the calls of a history leave in the budget, as long as none is `uncertain`.
structure Balanced [DecidableEq ι] (total : Int) (h : List (ι × Option (Event sig)))
    (b : Budget) : Prop where
  total    : b.total = total
  spent    : b.spent = committed (events h)
  reserved : b.reserved = outstanding h
  held     : ∀ i w, (i, w) ∈ unsettled h ↔ ∃ n, own i h = [⟨.reserve n, .ok w⟩]
  nodup    : (unsettled h).map Prod.fst |>.Nodup
  nonneg   : ∀ u ∈ unsettled h, 0 ≤ u.2

namespace Balanced

variable [DecidableEq ι] {total : Int} {h : List (ι × Option (Event sig))} {b : Budget} {i : ι}
variable {s s' : session.State} {e : Event sig}

theorem start : Balanced (ι := ι) total [] { total, spent := 0, reserved := 0 } where
  total    := rfl
  spent    := rfl
  reserved := rfl
  held     := by simp [unsettled, own]
  nodup    := by simp [unsettled]
  nonneg   := by simp [unsettled]

theorem outstanding_nonneg (hb : Balanced total h b) : 0 ≤ outstanding h :=
  List.sum_nonneg fun w hw => by
    obtain ⟨u, hu, rfl⟩ := List.mem_map.mp hw
    exact hb.nonneg u hu

-- A reservation goes through exactly if it fits in what is neither committed nor outstanding.
theorem reserve_iff (hb : Balanced total h b) (w : Int) :
    (∃ b', b.reserve w = .ok (w, b')) ↔ w ≤ total - committed (events h) - outstanding h := by
  rw [← hb.total, ← hb.spent, ← hb.reserved]
  constructor
  · rintro ⟨_, hr⟩
    exact Budget.reserve_ok_iff.mp hr |>.right.left
  · exact fun hle => ⟨_, Budget.reserve_ok_iff.mpr ⟨hb.reserved ▸ hb.outstanding_nonneg, hle, rfl, rfl⟩⟩

theorem asked (hb : Balanced total h b) : Balanced total (h ++ [(i, none)]) b where
  total    := hb.total
  spent    := by simp [hb.spent]
  reserved := by simp [outstanding, hb.reserved]
  held     := by simpa using hb.held
  nodup    := by simpa using hb.nodup
  nonneg   := by simpa using hb.nonneg

theorem own_ne {n w : Int} (hg : granted e = none) :
    own i h ++ [e] ≠ [⟨.reserve n, .ok w⟩] := by
  intro he
  obtain ⟨-, he⟩ := List.append_inj' (show own i h ++ [e] = [] ++ [⟨.reserve n, .ok w⟩] from he) rfl
  obtain rfl := List.singleton_inj.mp he
  cases hg

-- A call that neither obtains nor gives back a reservation, of a request that holds none.
theorem uncounted (hb : Balanced total h b) (ho : ∀ n w, own i h ≠ [⟨.reserve n, .ok w⟩])
    (hg : granted e = none) (hs : e.call.settles = none) (hc : e.call.cost = 0) :
    Balanced total (h ++ [(i, some e)]) b where
  total    := hb.total
  spent    := by simp [hb.spent, hc]
  reserved := by simp [outstanding, unsettled_other hg hs, hb.reserved]
  nodup    := by rw [unsettled_other hg hs]; exact hb.nodup
  nonneg   := by rw [unsettled_other hg hs]; exact hb.nonneg
  held     := by
    intro j w
    rw [unsettled_other hg hs, hb.held, own_snoc]
    by_cases hj : i = j
    · subst hj
      simp [ho, own_ne hg]
    · simp [hj]

theorem granted {n w : Int} (hb : Balanced total h b) (ho : own i h = []) (hw : 0 ≤ w) :
    Balanced total (h ++ [(i, some ⟨.reserve n, .ok w⟩)])
      { b with reserved := b.reserved + w } where
  total    := hb.total
  spent    := by simp [hb.spent, Call.cost]
  reserved := by
    rw [outstanding, unsettled_granted rfl]
    simp [hb.reserved, outstanding]
  nodup    := by
    rw [unsettled_granted rfl, List.map_append, List.nodup_append]
    refine ⟨hb.nodup, by simp, ?_⟩
    intro j hj k hk hjk
    obtain ⟨⟨j, v⟩, hv, rfl⟩ := List.mem_map.mp hj
    obtain rfl := List.mem_singleton.mp hk
    obtain ⟨m, hown⟩ := hb.held _ _ |>.mp hv
    simp_all
  nonneg   := by
    rw [unsettled_granted rfl, List.forall_mem_append]
    exact ⟨hb.nonneg, by simpa using hw⟩
  held     := by
    intro j v
    rw [unsettled_granted rfl, List.mem_append, hb.held, own_snoc]
    by_cases hj : i = j
    · subst hj
      simp [ho, eq_comm]
    · simp [hj, Ne.symm hj]

theorem settled {n w cost : Int} (hb : Balanced total h b)
    (ho : own i h = [⟨.reserve n, .ok w⟩]) :
    Balanced total (h ++ [(i, some ⟨.commit w cost, .ok ()⟩)]) (b.commit w cost) := by
  have hmem : (i, w) ∈ unsettled h := hb.held _ _ |>.mpr ⟨n, ho⟩
  have hus : unsettled (h ++ [(i, some ⟨.commit w cost, .ok ()⟩)]) =
      (unsettled h).filter (·.1 ≠ i) := unsettled_settled rfl rfl
  have hsum : outstanding h = w + outstanding (h ++ [(i, some ⟨.commit w cost, .ok ()⟩)]) := by
    rw [outstanding, outstanding, hus]
    exact sum_filter_ne hb.nodup hmem
  have hsub : ∀ u ∈ unsettled (h ++ [(i, some ⟨.commit w cost, .ok ()⟩)]), u ∈ unsettled h :=
    fun u hu => List.mem_of_mem_filter (hus ▸ hu)
  constructor
  case total    => exact hb.total
  case spent    => simp [hb.spent, Call.cost]
  case reserved =>
    have hnn : 0 ≤ outstanding (h ++ [(i, some ⟨.commit w cost, .ok ()⟩)]) :=
      List.sum_nonneg fun v hv => by
        obtain ⟨u, hu, rfl⟩ := List.mem_map.mp hv
        exact hb.nonneg u <| hsub u hu
    rw [Budget.commit_reserved, hb.reserved, hsum]
    omega
  case nodup  => exact hus ▸ hb.nodup.sublist (List.filter_sublist.map _)
  case nonneg => exact fun u hu => hb.nonneg u <| hsub u hu
  case held   =>
    intro j v
    rw [hus, List.mem_filter, hb.held, own_snoc]
    by_cases hj : i = j
    · subst hj
      simp [ho]
    · simp [hj, Ne.symm hj]

-- The budget grants no more than is left.
theorem granted_le {w : Int} (hb : Balanced total h s.budget)
    (hr : session.perform e.call s = (e.reply, s')) (hg : Egress.granted e = some w) :
    committed (events h) + outstanding h + w ≤ total := by
  obtain ⟨c, r⟩ := e
  cases c with
  | reserve n =>
    cases r with
    | error e => cases hg
    | ok v =>
      obtain rfl := Option.some.inj hg
      simp only at hr
      split at hr
      case h_2 => cases hr
      case h_1 v' b hv =>
        obtain ⟨rfl, -⟩ := Prod.mk.inj hr |>.imp_left Except.ok.inj
        obtain ⟨-, hle, hvn, -⟩ := Budget.reserve_ok_iff.mp hv
        have hfit := hb.reserve_iff v' |>.mp ⟨b, hvn ▸ hv⟩
        omega
  | commit _ _ | uncertain _ | record _ => cases hg

theorem outstanding_settled {n w cost : Int} (hb : Balanced total h b)
    (ho : own i h = [⟨.reserve n, .ok w⟩]) :
    outstanding h = w + outstanding (h ++ [(i, some ⟨.commit w cost, .ok ()⟩)]) := by
  rw [outstanding, outstanding, unsettled_settled rfl rfl]
  exact sum_filter_ne hb.nodup <| hb.held _ _ |>.mpr ⟨n, ho⟩

-- One call of a request that keeps to its discipline: the books stay balanced, and only a
-- reservation that went through takes from what is left.
theorem event (hb : Balanced total h s.budget) (ho : Orderly (own i h) e)
    (hu : ¬e.call.isUncertain) (hr : session.perform e.call s = (e.reply, s')) :
    Balanced total (h ++ [(i, some e)]) s'.budget ∧
    committed (events (h ++ [(i, some e)])) + outstanding (h ++ [(i, some e)]) ≤
      committed (events h) + outstanding h + ((Egress.granted e).getD 0) := by
  obtain ⟨c, r⟩ := e
  cases c with
  | reserve n =>
    obtain ⟨hnil, hn⟩ := ho
    simp only at hr
    cases hw : s.budget.reserve n with
    | error e =>
      rw [hw] at hr
      obtain ⟨rfl, rfl⟩ := Prod.mk.inj hr
      refine ⟨hb.uncounted (by simp [hnil]) rfl rfl rfl, ?_⟩
      simp [outstanding, unsettled_other (e := ⟨.reserve n, .error e⟩) rfl rfl, Call.cost,
        Egress.granted]
    | ok b =>
      rw [hw] at hr
      obtain ⟨rfl, rfl⟩ := Prod.mk.inj hr
      obtain ⟨-, -, hb₁, hb₂⟩ := Budget.reserve_ok_iff.mp hw
      refine ⟨?_, ?_⟩
      · rw [hb₁, hb₂]
        exact hb.granted hnil hn
      · simp [outstanding, unsettled_granted (e := ⟨.reserve n, .ok b.1⟩) rfl, Call.cost,
          Egress.granted, Int.add_assoc]
  | commit w cost =>
    obtain ⟨⟨n, hown⟩, -, hle⟩ := ho
    obtain ⟨rfl, rfl⟩ := Prod.mk.inj hr
    refine ⟨hb.settled hown, ?_⟩
    have hout : outstanding h = w + outstanding (h ++ [(i, some ⟨.commit w cost, .ok ()⟩)]) :=
      hb.outstanding_settled hown
    simp only [Pool.events_snoc, Option.toList_some, committed_append, committed_singleton,
      Call.cost, Egress.granted, Option.getD_none]
    omega
  | uncertain w => simp [Call.isUncertain] at hu
  | record rec  =>
    obtain ⟨rfl, rfl⟩ := Prod.mk.inj hr
    refine ⟨hb.uncounted ho rfl rfl rfl, ?_⟩
    simp [outstanding, unsettled_other (e := ⟨.record rec, .ok ()⟩) rfl rfl, Call.cost,
      Egress.granted]

end Balanced

-- Requests that share one budget, each with what its provider answers.
def Session.serving (b : Budget) (requests : ι → Request)
    (upstreams : ι → ∀ q : sig.Query, sig.Answer q) : Pool ι session Unit where
  threads i := (requests i).prog.given (upstreams i)
  store := { budget := b, records := [] }

abbrev serving [DecidableEq ι] : Machine (Pool ι session Unit) (ι × Option (Event sig)) :=
  Pool.machine anyAnswer fun _ => True

section Serving

variable [DecidableEq ι] {total cap : Int} {requests : ι → Request}
variable {upstreams : ι → ∀ q : sig.Query, sig.Answer q} {h : List (ι × Option (Event sig))}
variable {y : Pool ι session Unit}

-- Every reservation that went through fits, with what is committed and outstanding, under a cap.
def Fits (cap : Int) (h : List (ι × Option (Event sig))) : Prop :=
  h.AtEach fun past l => ∀ w, l.2.bind granted = some w →
    committed (events past) + outstanding past + w ≤ cap

-- Each request keeps to its discipline in every interleaving.
theorem run_orderly {b : Budget} (hw : ∀ i, (requests i).Within (upstreams i))
    (r : serving.Run (Session.serving b requests upstreams) h y) (i : ι) :
    (own i h).AtEach Orderly := by
  obtain ⟨ms, o, t, hp⟩ := Pool.run_own (fun _ => rfl) r i
  exact (requests i).course t |>.orderly (hw i) |>.of_initial hp

-- Whoever makes the next call, the books are balanced and what it takes is known.
theorem run_balanced (hw : ∀ i, (requests i).Within (upstreams i))
    (r : serving.Run (Session.serving ⟨total, 0, 0⟩ requests upstreams) h y)
    (hu : ∀ e ∈ events h, ¬e.call.isUncertain) :
    Balanced total h y.store.budget ∧ Fits total h ∧
    ∀ cap, 0 ≤ cap → Fits cap h → committed (events h) + outstanding h ≤ cap := by
  induction r with
  | refl => exact ⟨.start, .nil, fun cap hc _ => by simpa [events, outstanding, committed]⟩
  | @step h z l y r st ih =>
    have hu' : ∀ e ∈ events h, ¬e.call.isUncertain := fun e he =>
      hu e <| by rw [Pool.events_snoc]; exact List.mem_append_left _ he
    obtain ⟨hb, hf, hc⟩ := ih hu'
    have ho := run_orderly hw (r.step st) l.1
    obtain ⟨i, e, p, t, st⟩ := st
    cases e with
    | none   =>
      have hs : t = z.store := st.serves
      refine ⟨hs ▸ hb.asked, List.AtEach.snoc_iff.mpr ⟨hf, by simp⟩, fun cap h0 hcap => ?_⟩
      have hle := hc cap h0 (List.AtEach.snoc_iff.mp hcap).left
      simpa [outstanding] using hle
    | some e =>
      simp only [Pool.own_snoc, if_true, Option.toList_some, List.AtEach.snoc_iff] at ho
      obtain ⟨hb', hle⟩ := hb.event ho.right (hu e <| by simp) st.serves
      refine ⟨hb', List.AtEach.snoc_iff.mpr ⟨hf, fun w hg => ?_⟩, fun cap h0 hcap => ?_⟩
      · exact hb.granted_le st.serves hg
      · obtain ⟨hcap, hg⟩ := List.AtEach.snoc_iff.mp hcap
        have hle' := hc cap h0 hcap
        cases he : granted e with
        | none   => simp only [he, Option.getD_none] at hle; omega
        | some w =>
          have hw' := hg w he
          simp only [he, Option.getD_some] at hle
          omega

-- The budget is a conserved quantity: on any interleaving of any requests, what is committed and
-- what is outstanding stay within the total, and the rest can be reserved.
theorem budget_conserved (b : Budget) (hb : Budget.new total = .ok b)
    (hw : ∀ i, (requests i).Within (upstreams i))
    (r : serving.Run (Session.serving b requests upstreams) h y)
    (hu : ∀ e ∈ events h, ¬e.call.isUncertain) :
    committed (events h) + outstanding h ≤ total ∧
    ∀ w, (∃ b', y.store.budget.reserve w = .ok (w, b')) ↔
      w ≤ total - committed (events h) - outstanding h := by
  obtain ⟨h0, rfl⟩ := Budget.new_eq_ok_iff.mp hb
  obtain ⟨hbal, hf, hc⟩ := run_balanced hw r hu
  exact ⟨hc total h0 hf, hbal.reserve_iff⟩

end Serving

namespace Sharing

open Reopening (request)

-- Every request is billed nine micros, for all the tokens it was authorized with.
def upstream : ∀ q : sig.Query, sig.Answer q
  | .resolve _ => some (.str "real")
  | .send _ _  => some (200, .json <| .obj [
      ("usage", .obj [("prompt_tokens", .int 5), ("completion_tokens", .int 4)])])

theorem limits : request.limits?.map (fun l => (l.input_tokens, l.output_tokens)) = .ok (5, 4) := by
  decide +kernel

theorem within : request.Within upstream := by
  intro l headers status payload cost usage hl ha hr
  have hl' := limits
  rw [hl] at hl'
  obtain ⟨hi, ho⟩ := Prod.mk.inj <| Except.ok.inj hl'
  obtain ⟨fields, reported, hp, hd, hobs⟩ := hr
  obtain ⟨-, rfl⟩ := Prod.mk.inj <| Option.some.inj ha
  obtain rfl := Json.obj.inj <| Payload.json.inj hp
  obtain rfl := Except.ok.inj hd
  obtain ⟨-, rfl⟩ := Prod.mk.inj <| Except.ok.inj hobs
  rw [hi, ho]
  decide

def start (budget : Int) : Pool ℕ session Unit :=
  Session.serving ⟨budget, 0, 0⟩ (fun _ => request) fun _ => upstream

-- Two requests, the second one admitted before the first one settles.
def served : List (ℕ × Option (Event sig)) × Pool ℕ session Unit :=
  Pool.exec (fun _ => upstream) [0, 1, 0, 0] (start 100)

theorem run : serving.Run (start 100) served.1 served.2 :=
  Pool.exec_run (fun _ _ => trivial) _ _

theorem budget_conserved_served :
    committed (events served.1) + outstanding served.1 ≤ 100 ∧
    ∀ w, (∃ b', served.2.store.budget.reserve w = .ok (w, b')) ↔
      w ≤ 100 - committed (events served.1) - outstanding served.1 :=
  budget_conserved ⟨100, 0, 0⟩ rfl (fun _ => within) run <| by decide +kernel

end Sharing

end Egress
