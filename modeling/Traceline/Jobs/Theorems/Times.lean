import Mathlib.Data.String.Basic
import Traceline.Events.Timestamps
import Traceline.Jobs.Queue

-- The times of jobs as they are written, and what is decided on their texts.
namespace Jobs

open Events

def utc (t : Time) : Timestamp where
  wall   := t
  offset := some 0

-- What the store writes for an instant: `datetime.isoformat`, in UTC.
def text (t : Time) : String :=
  (utc t).isoformat

-- The columns of a row that hold times.
structure Columns where
  lease_expires_at : Option String
  created_at       : String
  updated_at       : String

def JobRecord.columns (j : JobRecord) : Columns where
  lease_expires_at := j.lease_expires_at.map text
  created_at       := text j.created_at
  updated_at       := text j.updated_at

-- The comparisons of the store, which are on the columns.
namespace Written

-- status='leased' AND lease_expires_at<=?
def expired (now : String) (j : JobRecord) : Bool :=
  j.status = .leased ∧ j.columns.lease_expires_at.any (· ≤ now)

-- status='leased' AND fence=? AND lease_expires_at>? AND cancellation_requested=0
def holds (fence : ℕ) (now : String) (j : JobRecord) : Bool :=
  j.status = .leased ∧ j.fence = fence ∧ j.columns.lease_expires_at.any (now < ·) ∧
  ¬j.cancellation_requested

def assert_active (s : State) (now : String) (lease : JobRecord) : Except Error JobRecord :=
  match s.jobs.find lease.job_id with
  | none => .error .stale_lease
  | some current =>
    if current.status ≠ .leased ∨ current.fence ≠ lease.fence ∨
        current.lease_worker_id ≠ lease.lease_worker_id ∨
        current.columns.lease_expires_at.any (· ≤ now) then .error .stale_lease
    else if current.cancellation_requested then .error .job_cancelled
    else .ok current

-- ORDER BY created_at,job_id LIMIT 1
def next_queued (s : State) : Option JobRecord :=
  (s.jobs.rows.filter (·.claimable)).mergeSort (fun i j =>
    i.columns.created_at < j.columns.created_at ||
      i.columns.created_at = j.columns.created_at && i.job_id ≤ j.job_id) |>.head?

end Written

-- The instants that a `datetime` can hold.
def Representable (t : Time) : Prop :=
  (utc t).InRange

instance (t : Time) : Decidable (Representable t) :=
  inferInstanceAs <| Decidable (utc t).InRange

variable {t u now : Time} {j : JobRecord} {s : State} {c : Call}

section Text

variable (ht : Representable t) (hu : Representable u)

include ht hu

theorem text_lt_iff : text t < text u ↔ t < u :=
  Timestamp.isoformat_lt_iff_wall ht hu rfl

theorem text_le_iff : text t ≤ text u ↔ t ≤ u := by
  rw [← not_lt, text_lt_iff hu ht, not_lt]

theorem text_eq_iff : text t = text u ↔ t = u := by
  rw [le_antisymm_iff, text_le_iff ht hu, text_le_iff hu ht, le_antisymm_iff]

end Text

-- The times of a row are ones a `datetime` can hold.
structure JobRecord.Dated (j : JobRecord) : Prop where
  lease   : ∀ t ∈ j.lease_expires_at, Representable t
  created : Representable j.created_at
  updated : Representable j.updated_at

def State.Dated (s : State) : Prop :=
  ∀ j ∈ s.jobs, j.Dated

-- The clock reads such a time, and so does the end of a lease that is granted now.
def Call.Dated (c : Call) : Prop :=
  Representable c.now ∧ Representable (c.self.lease_until c.now)

section Lease

variable {o : Option Time} (ho : ∀ t ∈ o, Representable t) (hn : Representable now)

include ho hn

theorem any_text_le : (o.map text).any (· ≤ text now) = o.any (· ≤ now) := by
  cases o with
  | none   => rfl
  | some t =>
    rw [Option.map_some, Option.any_some, Option.any_some, decide_eq_decide, text_le_iff (ho t rfl) hn]

theorem any_text_lt : (o.map text).any (text now < ·) = o.any (now < ·) := by
  cases o with
  | none   => rfl
  | some t =>
    rw [Option.map_some, Option.any_some, Option.any_some, decide_eq_decide, text_lt_iff hn (ho t rfl)]

end Lease

namespace Written

theorem expired_eq (hj : j.Dated) (hn : Representable now) :
    expired (text now) j = j.expired now := by
  simp only [expired, JobRecord.expired, JobRecord.columns, any_text_le hj.lease hn]

theorem holds_eq {fence : ℕ} (hj : j.Dated) (hn : Representable now) :
    holds fence (text now) j = j.holds fence now := by
  simp only [holds, JobRecord.holds, JobRecord.columns, any_text_lt hj.lease hn]

theorem assert_active_eq {lease : JobRecord} (hs : s.Dated) (hn : Representable now) :
    assert_active s (text now) lease = s.assert_active now lease := by
  unfold assert_active State.assert_active
  cases hf : s.jobs.find lease.job_id with
  | none         => rfl
  | some current =>
    have hc := hs current (Table.find_eq_some_iff.mp hf).left
    simp only [JobRecord.columns, any_text_le hc.lease hn]

theorem mergeSort_congr {le le' : JobRecord → JobRecord → Bool} {l : List JobRecord}
    (h : ∀ i ∈ l, ∀ j ∈ l, le i j = le' i j) : l.mergeSort le = l.mergeSort le' := by
  have := List.map_mergeSort (f := id) h
  rwa [List.map_id, List.map_id] at this

theorem next_queued_eq (hs : s.Dated) : next_queued s = s.next_queued := by
  refine congrArg List.head? <| mergeSort_congr fun i hi j hj => ?_
  have hi := (hs i <| List.mem_of_mem_filter hi).created
  have hj := (hs j <| List.mem_of_mem_filter hj).created
  simp only [JobRecord.columns, text_lt_iff hi hj, text_eq_iff hi hj]

end Written

section Run

variable {lease_until : Time} {worker_id : String} {st : Status} {safe : Redaction.RedactedPayload}
variable {p : JobRecord → Bool} {f : JobRecord → JobRecord} {hf : ∀ j, (f j).job_id = j.job_id}
variable {jobs : Table JobRecord.job_id} {outbox : List OutboxRow}

namespace JobRecord.Dated

variable (h : j.Dated) (hn : Representable now)

include h hn

theorem release : (j.release st now).Dated :=
  ⟨fun t ht => absurd ht (Option.not_mem_none t), h.created, hn⟩

theorem expire : (j.expire now).Dated :=
  ⟨fun t ht => absurd ht (Option.not_mem_none t), h.created, hn⟩

theorem complete : (j.complete safe now).Dated :=
  ⟨fun t ht => absurd ht (Option.not_mem_none t), h.created, hn⟩

theorem fail : (j.fail safe now).Dated :=
  ⟨fun t ht => absurd ht (Option.not_mem_none t), h.created, hn⟩

theorem extend (hl : Representable lease_until) : (j.extend lease_until now).Dated :=
  ⟨fun _ ht => Option.some.inj ht ▸ hl, h.created, hn⟩

theorem grant (hl : Representable lease_until) : (j.grant worker_id lease_until now).Dated :=
  ⟨fun _ ht => Option.some.inj ht ▸ hl, h.created, hn⟩

theorem request_cancel : (j.request_cancel now).Dated := by
  unfold JobRecord.request_cancel
  dsimp only
  split
  case isTrue  => exact ⟨fun t ht => absurd ht (Option.not_mem_none t), h.created, hn⟩
  case isFalse => exact ⟨h.lease, h.created, hn⟩

end JobRecord.Dated

-- Rows that are replaced by dated ones leave a dated table.
theorem State.Dated.update (h : s.Dated) (hf : ∀ j, (f j).job_id = j.job_id)
    (hd : ∀ j : JobRecord, j.Dated → (f j).Dated) :
    State.Dated ⟨s.jobs.update p f hf, outbox⟩ := by
  intro j' hj'
  have hj' : j' ∈ s.jobs.update p f hf := hj'
  obtain ⟨j, hj, rfl⟩ := Table.mem_update.mp hj'
  split
  case isTrue  => exact hd j (h j hj)
  case isFalse => exact h j hj

theorem State.Dated.guarded {id : String} {o : State → State} (h : s.Dated)
    (ho : ∀ s, (o s).jobs = s.jobs) (hd : ∀ j : JobRecord, j.Dated → (f j).Dated) :
    (s.guarded id p f hf o).2.Dated := by
  unfold State.guarded
  split
  case isTrue  =>
    intro j hj
    dsimp only at hj
    rw [ho] at hj
    exact (h.update hf hd : State.Dated ⟨_, s.outbox⟩) j hj
  case isFalse => exact h

theorem State.Dated.lease {self : JobQueue} {uuid : ℕ → String} {id : String} (h : s.Dated)
    (hn : Representable now) (hl : Representable (self.lease_until now)) :
    (self.lease now uuid s id worker_id).2.Dated := by
  unfold JobQueue.lease
  split
  case isTrue  => exact h.update (fun _ => JobRecord.grant_job_id) fun j hj => hj.grant hn hl
  case isFalse => exact h

theorem State.Dated.enqueue {self : JobQueue} {uuid : ℕ → String} {command : List (String × Json)}
    {key : String} {max_attempts : Int} (h : s.Dated) (hn : Representable now) :
    (self.enqueue now uuid s command key max_attempts).2.Dated := by
  unfold JobQueue.enqueue
  split
  · exact h
  split
  · exact h
  split
  · exact h
  dsimp only
  split
  · split <;> exact h
  split
  case h_1 => exact h
  case h_2 jobs hi =>
    intro j hj
    change j ∈ jobs.rows at hj
    rw [(Table.insert_eq_some_iff.mp hi).right] at hj
    rcases List.mem_append.mp hj with hj | hj
    · exact h j hj
    · rw [List.mem_singleton.mp hj]
      exact ⟨fun t ht => absurd ht (Option.not_mem_none t), hn, hn⟩

theorem State.Dated.perform (h : s.Dated) (hc : c.Dated) : (store.perform c s).2.Dated := by
  obtain ⟨self, now, uuid, op⟩ := c
  obtain ⟨hn, hl⟩ := hc
  have hexpire : (s.expire_and_cancel uuid now).Dated := h.update (fun _ => JobRecord.expire_job_id) fun j hj => hj.expire hn
  cases op with
  | enqueue command key max_attempts => exact h.enqueue hn
  | get | assert_active => exact h
  | claim worker_id =>
    change (self.claim now uuid s worker_id).2.Dated
    unfold JobQueue.claim
    split
    · exact h
    dsimp only
    split
    · exact hexpire
    · exact hexpire.lease hn hl
  | claim_specific job_id worker_id =>
    change (self.claim_specific now uuid s job_id worker_id).2.Dated
    unfold JobQueue.claim_specific
    split
    · exact h
    split
    · exact h
    · exact hexpire.lease hn hl
  | acknowledge_cancel job_id fence =>
    exact h.guarded (fun _ => rfl) fun j hj => hj.release hn
  | abandon job_id fence => exact h.guarded (fun _ => rfl) fun j hj => hj.extend hn hn
  | heartbeat job_id fence => exact h.guarded (fun _ => rfl) fun j hj => hj.extend hn hl
  | complete job_id fence result => exact h.guarded (fun _ => rfl) fun j hj => hj.complete hn
  | fail job_id fence error =>
    change (self.fail now uuid s job_id fence error).2.Dated
    unfold JobQueue.fail
    split
    · exact h.guarded (fun _ => rfl) fun j hj => hj.fail hn
    · exact h
  | request_cancel job_id =>
    change (s.request_cancel now uuid job_id).2.Dated
    unfold State.request_cancel
    split
    · exact h
    split
    · exact h
    · exact h.update (fun _ => JobRecord.request_cancel_job_id) fun j hj => hj.request_cancel hn

theorem dated_of_served {es : List (Event sig)} {s : store.State} (h : store.Served .empty es s)
    (hes : ∀ e ∈ es, e.call.Dated) : s.Dated := by
  induction h with
  | nil => exact fun j hj => by cases hj
  | @snoc _ t _ e _ he hi =>
    have ht := hi fun e' he' => hes e' (List.mem_append_left _ he')
    have := State.Dated.perform ht (c := e.call) <| hes e (by simp)
    rwa [he] at this

end Run

-- The texts of two instants are ordered as the instants are. What a queue decides on the texts of
-- its rows is therefore what it decides by time.
theorem texts_decide_by_time :
    (∀ t u, Representable t → Representable u →
      (text t < text u ↔ t < u) ∧ (text t = text u ↔ t = u)) ∧
    ∀ (es : List (Event sig)) (s : State) (now : Time), store.Served .empty es s →
      (∀ e ∈ es, e.call.Dated) → Representable now →
      (∀ j ∈ s.jobs, Written.expired (text now) j = j.expired now) ∧
      (∀ j ∈ s.jobs, ∀ fence, Written.holds fence (text now) j = j.holds fence now) ∧
      (∀ lease, Written.assert_active s (text now) lease = s.assert_active now lease) ∧
      Written.next_queued s = s.next_queued := by
  refine ⟨fun t u ht hu => ⟨text_lt_iff ht hu, text_eq_iff ht hu⟩, fun es s now h hes hn => ?_⟩
  have hs := dated_of_served h hes
  exact ⟨fun j hj => Written.expired_eq (hs j hj) hn, fun j hj _ => Written.holds_eq (hs j hj) hn,
    fun _ => Written.assert_active_eq hs hn, Written.next_queued_eq hs⟩

-- A whole second prints without a fraction, and is earlier than the microsecond after it.
theorem texts_decide_by_time_second :
    text 1756684799000000 = "2025-08-31T23:59:59+00:00" ∧
    text 1756684799000001 = "2025-08-31T23:59:59.000001+00:00" ∧
    text 1756684799000000 < text 1756684799000001 :=
  ⟨by decide, by decide, (texts_decide_by_time.left 1756684799000000 1756684799000001 (by decide)
    (by decide)).left.mpr (by decide)⟩

end Jobs
