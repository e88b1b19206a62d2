import Traceline.Jobs.Queue
import Traceline.Jobs.Theorems.Fencing

namespace Jobs

-- One transition of a job, by the type it is recorded under.
inductive Move : Option Status → String → Option Status → Prop
  | enqueue        : Move none "queued" (some .queued)
  | lease          : Move (some .queued) "leased" (some .leased)
  | withdraw       : Move (some .queued) "cancelled" (some .cancelled)
  | release        : st ≠ .leased → Move (some .leased) st.toString (some st)
  | request_cancel : Move (some .leased) "cancellation_requested" (some .leased)

inductive Path : Option Status → List String → Option Status → Prop
  | nil  : Path st [] st
  | cons : Move st e st' → Path st' es st'' → Path st (e :: es) st''

theorem Move.fold_status {st st' : Option Status} {e : String} (m : Move st e st') :
    fold_status st e = st' := by
  cases m with
  | @release st _ => cases st <;> rfl
  | _             => rfl

namespace Path

variable {st st' st'' : Option Status} {e : String} {es es' : List String}

theorem single (m : Move st e st') : Path st [e] st' :=
  .cons m .nil

theorem trans (h : Path st es st') (h' : Path st' es' st'') : Path st (es ++ es') st'' := by
  induction h with
  | nil         => exact h'
  | cons m _ ih => exact .cons m <| ih h'

-- Folding the transitions ends in the status they lead to.
theorem fold_status (h : Path st es st') : es.foldl Jobs.fold_status st = st' := by
  induction h with
  | nil         => rfl
  | cons m _ ih => rw [List.foldl_cons, m.fold_status, ih]

end Path

-- The types that some entries record of one job.
def types (id : String) (rows : List OutboxRow) : List String :=
  (rows.filter (·.job_id = id)).map (·.event_type)

-- The entries between two states are the transitions of each job between them.
def Appends (s t : State) : Prop :=
  ∃ new, t.outbox = s.outbox ++ new ∧ (∀ r ∈ new, r.pending) ∧
    ∀ id, Path (s.status id) (types id new) (t.status id)

section Appends

variable {s t u : State} {id k : String} {now : Time} {uuid : ℕ → String} {w : String}
variable {self : JobQueue}

theorem Appends.refl : Appends s s :=
  ⟨[], by simp, nofun, fun _ => .nil⟩

theorem Appends.trans (h : Appends s t) (h' : Appends t u) : Appends s u := by
  obtain ⟨new, ho, hn, hp⟩ := h
  obtain ⟨new', ho', hn', hp'⟩ := h'
  refine ⟨new ++ new', by rw [ho', ho, List.append_assoc], fun r hr => ?_, fun id => ?_⟩
  · exact (List.mem_append.mp hr).elim (hn r) (hn' r)
  · simpa [types] using (hp id).trans (hp' id)

-- An act on one job, which records the transitions of that job.
theorem Appends.of_one {new : List OutboxRow} (ho : t.outbox = s.outbox ++ new)
    (hn : ∀ r ∈ new, r.job_id = k ∧ r.pending) (hk : ∀ id, id ≠ k → t.jobs.find id = s.jobs.find id)
    (hp : Path (s.status k) (new.map (·.event_type)) (t.status k)) : Appends s t := by
  refine ⟨new, ho, fun r hr => (hn r hr).right, fun id => ?_⟩
  by_cases hid : id = k
  · subst hid
    have hall : new.filter (·.job_id = id) = new :=
      List.filter_eq_self.mpr fun r hr => by simp [(hn r hr).left]
    rw [types, hall]
    exact hp
  · have hnone : new.filter (·.job_id = id) = [] :=
      List.filter_eq_nil_iff.mpr fun r hr => by simp [(hn r hr).left, Ne.symm hid]
    rw [types, hnone, State.status, State.status, hk id hid]
    exact .nil

theorem status_of_find {j : JobRecord} (h : s.jobs.find k = some j) : s.status k = some j.status := by
  rw [State.status, h]
  rfl

theorem holds_leased {fence : ℕ} {j : JobRecord} (h : j.holds fence now) : j.status = .leased := by
  simp only [JobRecord.holds, decide_eq_true_eq] at h
  exact h.left

theorem guarded_appends {p : JobRecord → Bool} {f : JobRecord → JobRecord}
    {hf : ∀ j, (f j).job_id = j.job_id} {outbox : State → State} {r : Except Error JobRecord}
    (new : List OutboxRow) (h : s.guarded k p f hf outbox = (r, t))
    (ho : ∀ s, outbox s = { s with outbox := s.outbox ++ new })
    (hn : ∀ r ∈ new, r.job_id = k ∧ r.pending)
    (hp : ∀ j, p j → Path (some j.status) (new.map (·.event_type)) (some (f j).status)) :
    Appends s t := by
  obtain ⟨j, hj, hpj, -, hj', hother⟩ | ⟨-, rfl⟩ := guarded_cases (fun s => by rw [ho s]) h
  case inr => exact .refl
  case inl =>
    have hout : t.outbox = s.outbox ++ new := by
      unfold State.guarded at h
      rw [if_pos (by simpa [hj] using hpj)] at h
      obtain ⟨-, rfl⟩ := Prod.mk.inj h
      rw [ho]
    refine .of_one hout hn hother ?_
    rw [status_of_find hj, status_of_find hj']
    exact hp j hpj

theorem types_mapIdx {l : List JobRecord} {row : ℕ → JobRecord → OutboxRow}
    (event_type : JobRecord → String) (hid : ∀ i j, (row i j).job_id = j.job_id)
    (htype : ∀ i j, (row i j).event_type = event_type j) :
    types id (l.mapIdx row) = (l.filter (·.job_id = id)).map event_type := by
  induction l generalizing row with
  | nil         => rfl
  | cons j l ih =>
    have ih : types id (l.mapIdx fun i => row (i + 1)) =
        (l.filter (·.job_id = id)).map event_type :=
      ih (fun _ => hid _) fun _ => htype _
    rw [types] at ih
    rw [List.mapIdx_cons, types, List.filter_cons, List.filter_cons, hid]
    split
    · rw [List.map_cons, List.map_cons, htype, ih]
    · exact ih

theorem expire_appends : Appends s (s.expire_and_cancel uuid now) := by
  refine ⟨_, rfl, fun r hr => ?_, fun id => ?_⟩
  · obtain ⟨i, hi, rfl⟩ := List.mem_mapIdx.mp hr
    rfl
  rw [types_mapIdx (fun j => j.next_status.toString) (fun _ _ => rfl) fun _ _ => rfl,
    List.filter_filter]
  have hrows : s.jobs.rows.filter (fun j => j.job_id = id && j.expired now) =
      ((s.jobs.find id).toList).filter (·.expired now) := by
    rw [← Table.filter_key, List.filter_filter]
    simp only [Bool.and_comm]
  have hst : (s.expire_and_cancel uuid now).status id =
      (s.jobs.find id).map fun j => (expireIf now j).status := by
    rw [State.status, find_expire_and_cancel, Option.map_map]
    rfl
  rw [hrows, hst, State.status]
  cases s.jobs.find id with
  | none   => exact .nil
  | some j =>
    by_cases he : j.expired now
    case neg => simpa [expireIf, he] using .nil
    case pos =>
      have hl : j.status = .leased := by
        simp only [JobRecord.expired, decide_eq_true_eq] at he
        exact he.left
      have hn : j.next_status ≠ .leased := by
        unfold JobRecord.next_status
        split
        · simp
        · split <;> simp
      simpa [expireIf, he, hl, JobRecord.expire] using Path.single <| .release hn

theorem lease_appends {r : Except Error (Option JobRecord)}
    (h : self.lease now uuid s k w = (r, t)) : Appends s t := by
  obtain ⟨j, hj, hc, -, hj', hother⟩ | ⟨-, rfl⟩ := lease_cases h
  case inr => exact .refl
  case inl =>
    have hout : t.outbox = s.outbox ++ [State.outboxRow (uuid s.outbox.length) k "leased" now] := by
      unfold JobQueue.lease at h
      rw [if_pos (by simpa [hj] using hc)] at h
      obtain ⟨-, rfl⟩ := Prod.mk.inj h
      rfl
    refine .of_one hout (by simp [State.outboxRow, OutboxRow.pending]) hother ?_
    have hq : j.status = .queued := by
      simp only [JobRecord.claimable, decide_eq_true_eq] at hc
      exact hc.left
    rw [status_of_find hj, status_of_find hj', hq]
    exact .single .lease

theorem enqueue_outbox {command : List (String × Json)} {max_attempts : Int}
    {r : Except Error JobRecord} (h : self.enqueue now uuid s command k max_attempts = (r, t)) :
    t = s ∨ t.outbox = s.outbox ++ [State.outboxRow (uuid 1) (uuid 0) "queued" now] := by
  unfold JobQueue.enqueue at h
  split at h
  case isTrue => exact .inl <| Prod.mk.inj h |>.right.symm
  case isFalse =>
    split at h
    case isTrue => exact .inl <| Prod.mk.inj h |>.right.symm
    case isFalse =>
      split at h
      case isTrue => exact .inl <| Prod.mk.inj h |>.right.symm
      case isFalse =>
        dsimp only at h
        split at h
        case h_1 => split at h <;> exact .inl <| Prod.mk.inj h |>.right.symm
        case h_2 =>
          split at h
          case h_1 => exact .inl <| Prod.mk.inj h |>.right.symm
          case h_2 =>
            obtain ⟨-, rfl⟩ := Prod.mk.inj h
            exact .inr rfl

theorem enqueue_appends {command : List (String × Json)} {max_attempts : Int}
    {r : Except Error JobRecord} (h : self.enqueue now uuid s command k max_attempts = (r, t)) :
    Appends s t := by
  obtain rfl | ⟨j, hn, -, hq, -, -, -, -, -, -, hj⟩ := enqueue_cases h
  case inl => exact .refl
  case inr =>
    have hnew : t.jobs.find (uuid 0) = some j := by rw [hj, if_pos rfl]
    have hout : t.outbox = s.outbox ++ [State.outboxRow (uuid 1) (uuid 0) "queued" now] := by
      refine (enqueue_outbox h).resolve_left ?_
      rintro rfl
      rw [hn] at hnew
      cases hnew
    refine .of_one (k := uuid 0) hout (by simp [State.outboxRow, OutboxRow.pending]) (fun id hid => ?_) ?_
    · rw [hj, if_neg hid.symm]
    · rw [status_of_find hnew, hq, State.status, hn]
      exact .single .enqueue

theorem request_cancel_appends {r : Except Error JobRecord}
    (h : s.request_cancel now uuid k = (r, t)) : Appends s t := by
  unfold State.request_cancel at h
  split at h
  case h_1 =>
    obtain ⟨-, rfl⟩ := Prod.mk.inj h
    exact .refl
  case h_2 j hj =>
    split at h
    case isTrue =>
      obtain ⟨-, rfl⟩ := Prod.mk.inj h
      exact .refl
    case isFalse ht =>
      obtain ⟨-, rfl⟩ := Prod.mk.inj h
      have hid := Table.key_of_find hj
      refine .of_one (k := k) rfl (by simp [State.outboxRow, OutboxRow.pending]) (fun id hne => ?_) ?_
      · simp only [State.emit, Table.find_update]
        cases hi : s.jobs.find id with
        | none    => rfl
        | some j' => simp [Table.key_of_find hi, hne]
      · have hnew : (s.jobs.update (·.job_id = k) (·.request_cancel now)
            fun _ => JobRecord.request_cancel_job_id).find k = some (j.request_cancel now) := by
          simp [hj, hid]
        rw [status_of_find hj, status_of_find (j := j.request_cancel now) hnew]
        cases hst : j.status with
        | queued => simpa [hst, State.outboxRow, JobRecord.request_cancel, JobRecord.release] using
            Path.single .withdraw
        | leased => simpa [hst, State.outboxRow, JobRecord.request_cancel] using
            Path.single .request_cancel
        | _      => simp [hst, Status.Terminal] at ht

-- Each operation appends exactly its transitions.
theorem perform_appends (c : Call) (s : State) : Appends s (store.perform c s).2 := by
  obtain ⟨self, now, uuid, op⟩ := c
  cases op with
  | get | assert_active          => exact .refl
  | enqueue _ _ _                => exact enqueue_appends rfl
  | request_cancel _             => exact request_cancel_appends rfl
  | claim worker_id              =>
    change Appends s (self.claim now uuid s worker_id).2
    unfold JobQueue.claim
    split
    · exact .refl
    · dsimp only
      split
      · exact expire_appends
      · exact expire_appends.trans <| lease_appends rfl
  | claim_specific job_id worker_id =>
    change Appends s (self.claim_specific now uuid s job_id worker_id).2
    unfold JobQueue.claim_specific
    split
    · exact .refl
    · split
      · exact .refl
      · exact expire_appends.trans <| lease_appends rfl
  | acknowledge_cancel job_id fence =>
    refine guarded_appends [State.outboxRow (uuid 0) job_id "cancelled" now] rfl
      (fun _ => rfl) (by simp [State.outboxRow, OutboxRow.pending]) fun j hp => ?_
    simp only [Bool.and_eq_true, decide_eq_true_eq] at hp
    rw [hp.left.left]
    exact .single <| Move.release (by simp : Status.cancelled ≠ .leased)
  | abandon job_id fence =>
    refine guarded_appends [] rfl (fun _ => by simp) nofun fun j hp => ?_
    exact .nil
  | heartbeat job_id fence =>
    refine guarded_appends [] rfl (fun _ => by simp) nofun fun j hp => ?_
    exact .nil
  | complete job_id fence result =>
    refine guarded_appends [State.outboxRow (uuid 0) job_id "completed" now] rfl
      (fun _ => rfl) (by simp [State.outboxRow, OutboxRow.pending]) fun j hp => ?_
    rw [holds_leased hp]
    exact .single <| Move.release (by simp : Status.completed ≠ .leased)
  | fail job_id fence error =>
    change Appends s (self.fail now uuid s job_id fence error).2
    unfold JobQueue.fail
    split
    case h_2 => exact .refl
    case h_1 =>
      refine guarded_appends [State.outboxRow (uuid 0) job_id "failed" now] rfl
        (fun _ => rfl) (by simp [State.outboxRow, OutboxRow.pending]) fun j hp => ?_
      rw [holds_leased hp]
      exact .single <| Move.release (by simp : Status.failed ≠ .leased)

end Appends

section Order

variable {s t : State} {r r' r'' : OutboxRow} {id : String} {a : Act}

theorem OutboxRow.le_trans (h : r.le r') (h' : r'.le r'') : r.le r'' := by
  simp only [OutboxRow.le, Bool.or_eq_true, Bool.and_eq_true, decide_eq_true_eq] at *
  rcases h with h | ⟨h, hid⟩ <;> rcases h' with h' | ⟨h', hid'⟩
  · exact .inl <| h.trans h'
  · exact .inl <| h' ▸ h
  · exact .inl <| h ▸ h'
  · exact .inr ⟨h.trans h', hid.trans hid'⟩

theorem OutboxRow.le_total (r r' : OutboxRow) : r.le r' || r'.le r := by
  simp only [OutboxRow.le, Bool.or_eq_true, Bool.and_eq_true, decide_eq_true_eq]
  rcases lt_trichotomy r.created_at r'.created_at with h | h | h
  · exact .inl <| .inl h
  · exact (String.le_total r.event_id r'.event_id).imp (fun hid => .inr ⟨h, hid⟩)
      fun hid => .inr ⟨h.symm, hid⟩
  · exact .inr <| .inl h

theorem pairwise_pending_outbox : s.pending_outbox.Pairwise (·.le ·) := by
  have htrans : ∀ r r' r'' : OutboxRow, r.le r' → r'.le r'' → r.le r'' :=
    fun _ _ _ => OutboxRow.le_trans
  exact List.pairwise_mergeSort htrans OutboxRow.le_total _

theorem sublist_pending_outbox {rows : List OutboxRow} (h : rows.Pairwise (·.le ·))
    (hs : rows.Sublist (s.outbox.filter (·.pending))) : rows.Sublist s.pending_outbox := by
  have htrans : ∀ r r' r'' : OutboxRow, r.le r' → r'.le r'' → r.le r'' :=
    fun _ _ _ => OutboxRow.le_trans
  exact List.sublist_mergeSort htrans OutboxRow.le_total h hs

variable (s id) in
-- The consumers get the entries of a job in the order in which they were recorded.
def InOrder : Prop :=
  s.pending_outbox.filter (·.job_id = id) = s.pending_of id

theorem inOrder_iff : InOrder s id ↔ (s.pending_of id).Pairwise (·.le ·) := by
  have hpending : s.pending_of id = (s.outbox.filter (·.pending)).filter (·.job_id = id) := by
    rw [List.filter_filter]
    rfl
  constructor
  · intro h
    rw [← h]
    exact pairwise_pending_outbox.filter _
  · intro h
    have hsub : (s.pending_of id).Sublist s.pending_outbox :=
      sublist_pending_outbox h <| hpending ▸ List.filter_sublist
    have hown : (s.pending_of id).filter (·.job_id = id) = s.pending_of id := by
      rw [hpending, List.filter_filter]
      simp
    have hle := hsub.filter (·.job_id = id)
    rw [hown] at hle
    refine (hle.eq_of_length ?_).symm
    rw [hpending]
    exact ((List.mergeSort_perm _ _).filter _).length_eq.symm

-- The entries an act records.
def entries (a : Act) (s : State) : List OutboxRow :=
  (a.apply s).outbox.drop s.outbox.length

-- An act records the transitions of a job at readings of the clock, and under ids, that come after
-- those of its entries that are pending.
def Timely (s : State) (a : Act) : Prop :=
  ∀ id, (∀ r ∈ s.pending_of id, ∀ r' ∈ entries a s, r'.job_id = id → r.le r') ∧
    ((entries a s).filter (·.job_id = id)).Pairwise (·.le ·)

theorem pending_of_call (c : Call) : (Act.apply (.call c) s).pending_of id =
    s.pending_of id ++ (entries (.call c) s).filter (·.job_id = id) := by
  obtain ⟨new, ho, hn, -⟩ := perform_appends c s
  have hnew : entries (.call c) s = new := by
    change (store.perform c s).2.outbox.drop _ = new
    rw [ho, List.drop_left]
  have hall : new.filter (fun r => r.job_id = id && r.pending) = new.filter (·.job_id = id) :=
    List.filter_congr fun r hr => by simp [hn r hr]
  rw [hnew, ← hall]
  change (store.perform c s).2.outbox.filter _ = _
  rw [ho, List.filter_append]
  rfl

theorem inOrder_call_iff (c : Call) : InOrder (Act.apply (.call c) s) id ↔ InOrder s id ∧
    (∀ r ∈ s.pending_of id, ∀ r' ∈ entries (.call c) s, r'.job_id = id → r.le r') ∧
    ((entries (.call c) s).filter (·.job_id = id)).Pairwise (·.le ·) := by
  rw [inOrder_iff, inOrder_iff, pending_of_call, List.pairwise_append]
  simp only [List.mem_filter, decide_eq_true_eq, and_imp]
  tauto

-- An acknowledgement takes entries away and records none.
theorem inOrder_acknowledge {now : Time} {event_id : String} (h : InOrder s id) :
    InOrder (s.acknowledge_outbox now event_id) id := by
  rw [inOrder_iff] at h ⊢
  have hsub : ((s.acknowledge_outbox now event_id).pending_of id).Sublist (s.pending_of id) := by
    unfold State.pending_of State.acknowledge_outbox
    dsimp only
    induction s.outbox with
    | nil         => exact .slnil
    | cons r rows ih =>
      rw [List.map_cons, List.filter_cons, List.filter_cons]
      by_cases he : r.event_id = event_id && r.pending
      · have hr : ({ r with published_at := some now } : OutboxRow).pending = false := rfl
        rw [if_pos he, hr, Bool.and_false, if_neg Bool.false_ne_true]
        split
        · exact ih.cons _
        · exact ih
      · rw [if_neg he]
        split
        · exact ih.cons_cons _
        · exact ih
  exact h.sublist hsub

theorem timely_acknowledge {now : Time} {event_id : String} :
    Timely s (.acknowledge now event_id) := by
  have hnone : entries (.acknowledge now event_id) s = [] := by
    change ((s.acknowledge_outbox now event_id).outbox).drop _ = []
    simp [State.acknowledge_outbox]
  exact fun id => by simp [hnone]

-- What one act keeps.
theorem inOrder_apply_iff (h : ∀ id, InOrder s id) :
    (∀ id, InOrder (a.apply s) id) ↔ Timely s a := by
  cases a with
  | acknowledge now event_id =>
    exact iff_of_true (fun id => inOrder_acknowledge (h id)) timely_acknowledge
  | call c                   =>
    exact forall_congr' fun id => (inOrder_call_iff c).trans (and_iff_right (h id))

theorem after_snoc (h : List Act) : after (h ++ [a]) = a.apply (after h) := by
  rw [after, List.foldl_append]
  rfl

-- The recorded transitions lead from nothing to the status of the job.
theorem recorded_path (h : List Act) (id : String) :
    Path none ((after h).recorded id) ((after h).status id) := by
  induction h using List.reverseRecOn with
  | nil                     => exact .nil
  | append_singleton h a ih =>
    rw [after_snoc]
    cases a with
    | call c                   =>
      obtain ⟨new, ho, -, hp⟩ := perform_appends c (after h)
      have hrec : (Act.apply (.call c) (after h)).recorded id =
          (after h).recorded id ++ types id new := by
        change ((store.perform c (after h)).2.outbox.filter _).map _ = _
        rw [ho, List.filter_append, List.map_append]
        rfl
      rw [hrec]
      exact ih.trans (hp id)
    | acknowledge now event_id =>
      have hrec : ((after h).acknowledge_outbox now event_id).recorded id =
          (after h).recorded id := by
        unfold State.recorded State.acknowledge_outbox
        dsimp only
        induction (after h).outbox with
        | nil            => rfl
        | cons r rows ih =>
          rw [List.map_cons, List.filter_cons, List.filter_cons]
          have hr : (if (r.event_id = event_id && r.pending) = true then
              { r with published_at := some now } else r).job_id = r.job_id := by
            split <;> rfl
          have ht : (if (r.event_id = event_id && r.pending) = true then
              { r with published_at := some now } else r).event_type = r.event_type := by
            split <;> rfl
          rw [hr]
          split
          · rw [List.map_cons, List.map_cons, ht, ih]
          · exact ih
      change Path none (((after h).acknowledge_outbox now event_id).recorded id) _
      rw [hrec]
      exact ih

theorem inOrder_iff_timely (h : List Act) :
    (∀ past, past <+: h → ∀ id, InOrder (after past) id) ↔
      h.AtEach fun past a => Timely (after past) a := by
  induction h using List.reverseRecOn with
  | nil                     =>
    refine iff_of_true (fun past hp id => ?_) .nil
    rw [List.prefix_nil.mp hp]
    exact inOrder_iff.mpr .nil
  | append_singleton h a ih =>
    rw [List.AtEach.snoc_iff, ← ih]
    have hsplit : (∀ past, past <+: h ++ [a] → ∀ id, InOrder (after past) id) ↔
        (∀ past, past <+: h → ∀ id, InOrder (after past) id) ∧
          ∀ id, InOrder (after (h ++ [a])) id := by
      simp only [List.prefix_concat_iff]
      exact ⟨fun hall => ⟨fun past hp => hall past (.inr hp), hall _ (.inl rfl)⟩,
        fun ⟨hold, hnew⟩ past hp => hp.elim (fun he => he ▸ hnew) (hold past)⟩
    rw [hsplit]
    refine and_congr_right fun hold => ?_
    rw [after_snoc]
    exact inOrder_apply_iff <| hold h List.prefix_rfl

end Order

-- Each operation records exactly its transitions, so that folding them always ends in the status
-- of the job. Consumers get them in that order, exactly where the clock and the ids keep to it.
theorem outbox_in_transition_order (h : List Act) :
    (∀ c s, Appends s (store.perform c s).2) ∧
    (∀ id, ((after h).recorded id).foldl fold_status none = (after h).status id) ∧
    ((∀ past, past <+: h → ∀ id, InOrder (after past) id) ↔
      h.AtEach fun past a => Timely (after past) a) :=
  ⟨perform_appends, fun id => (recorded_path h id).fold_status, inOrder_iff_timely h⟩

namespace Reclaim

def call (now : Time) (op : Op) : Call where
  self := Sample.queue
  now
  uuid i := toString now ++ if i = 0 then "b" else "a"
  op

-- The second claim takes the lease back that ran out and grants it again, under a smaller id.
def acts : List Act := [
  .call (call 0 (.enqueue [("kind", .str "evaluation_run")] "key" 3)),
  .call (call 1 (.claim "first")),
  .call (call 40000000 (.claim "second"))
]

end Reclaim

open Reclaim in
theorem release_behind_lease : ¬ ∀ (h : List Act) (id : String),
    InOrder (after h) id ∧
    (((after h).pending_outbox.filter (·.job_id = id)).map (·.event_type)).foldl fold_status none =
      (after h).status id := by
  intro h
  have hbehind : ¬ ((after acts).pending_of "0b").Pairwise (·.le ·) := by
    decide +kernel
  exact hbehind <| inOrder_iff.mp (h acts "0b").left

end Jobs
