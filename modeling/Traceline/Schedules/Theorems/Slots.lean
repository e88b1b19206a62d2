import Traceline.Library.Except
import Traceline.Library.Protocol
import Traceline.Jobs.Theorems.Keys
import Traceline.Schedules.Sweep

namespace Schedules

open Jobs (JobQueue JobRecord Time)

-- What a sweep has in hand between its calls.
inductive Phase
  | idle
  | claimed (slot : Slot)
  | enqueued (slot : Slot)

namespace Phase

def allows : Phase → Call → Prop
  | .claimed slot,  .enqueue _ _ _ schedule slot_key      => (schedule.schedule_id, slot_key) = slot
  | .claimed slot,  .set_schedule_slot_job slot' .failed _ => slot' = slot
  | .enqueued slot, .set_schedule_slot_job slot' .queued _ => slot' = slot
  | .idle,          .set_schedule_slot_job _ _ _           => False
  | .idle,          .enqueue _ _ _ _ _                     => False
  | .idle,          _                                      => True
  | _,              _                                      => False

def next (x : Phase) : Event sig → Phase
  | ⟨.claim_schedule_slot slot _ _, .ok true⟩     => .claimed slot
  | ⟨.enqueue _ _ _ schedule slot_key, .ok _⟩     => .enqueued (schedule.schedule_id, slot_key)
  | ⟨.set_schedule_slot_job _ _ _, _⟩             => .idle
  | _                                             => x

end Phase

-- A sweep claims a slot, enqueues its job and records that it did, or that it failed to.
abbrev protocol : Prog.Protocol store Phase where
  allow _ _ := True
  allows    := Phase.allows
  next      := Phase.next

section Orderly

variable {cal : Calendar} {sha256 : String → String} {w : Plans.World} {α : Type}

abbrev Follows (p : Prog sig α) (Q : α → Phase → Prop) (x : Phase) : Prop :=
  p.Follows protocol (fun _ => (· = .idle)) Q x

variable {schedule : ScheduleRecord} {slot_key : String}

theorem follows_enqueue_slot : Follows (enqueue_slot schedule slot_key)
    (fun _ => (· = .enqueued (schedule.schedule_id, slot_key)))
    (.claimed (schedule.schedule_id, slot_key)) := by
  let x : Phase := .claimed (schedule.schedule_id, slot_key)
  refine Prog.Follows.attempt (F := fun _ => (· = x)) ?_ ?_
  · refine .seq (R := fun _ => (· = x)) (.query fun _ _ => rfl) ?_
    rintro queue _ rfl
    refine .seq (R := fun _ => (· = x)) (.ofExcept (fun _ _ => rfl) fun _ _ => rfl) ?_
    rintro queue _ rfl
    refine .seq (R := fun _ => (· = x)) (.query fun _ _ => rfl) ?_
    rintro now _ rfl
    refine .seq (R := fun _ => (· = x)) (.query fun _ _ => rfl) ?_
    rintro uuid _ rfl
    exact .perform rfl (fun _ _ _ => rfl) fun _ _ _ => rfl
  · rintro e _ rfl
    refine .seq (R := fun _ => (· = .idle)) ?_ ?_
    · exact .perform rfl (fun _ _ _ => rfl) fun _ _ _ => rfl
    · rintro _ _ rfl
      rfl

theorem follows_sweep_slots {plan_budget : ℕ} {owner : String} (slots : List ℕ) (p : Progress) :
    Follows (sweep_slots cal sha256 schedule plan_budget owner slots p) (fun _ => (· = .idle))
      .idle := by
  induction slots generalizing p with
  | nil             => rfl
  | cons slot slots ih =>
    unfold sweep_slots
    dsimp only
    split
    case isTrue  => exact ih p
    case isFalse =>
      let slot_at := cal.isoformat schedule.timezone slot schedule.local_time
      let k := (schedule.schedule_id, enqueue_key sha256 schedule.schedule_id slot_at)
      refine .seq (R := fun claimed => (· = if claimed then .claimed k else .idle)) ?_ ?_
      · refine .perform trivial (fun _ claimed _ => ?_) fun _ _ _ => rfl
        cases claimed <;> rfl
      · rintro claimed _ rfl
        cases claimed with
        | false => exact ih p
        | true  =>
          refine .seq follows_enqueue_slot ?_
          rintro job _ rfl
          refine .seq (R := fun _ => (· = .idle)) ?_ ?_
          · exact .perform rfl (fun _ _ _ => rfl) fun _ _ _ => rfl
          · rintro _ _ rfl
            exact ih _

-- What does not touch the slots.
theorem follows_read {c : Call} {Q : sig.Reply c → Phase → Prop} (h : Phase.idle.allows c)
    (hn : ∀ r, Phase.idle.next ⟨c, r⟩ = .idle) (hq : ∀ r, Q r .idle) :
    Follows (call c) Q .idle :=
  .perform h (fun _ r _ => (congrArg (Q r) <| hn <| .ok r).mpr <| hq r) fun _ e _ => hn (.error e)

theorem follows_stale (plan : RunPlan) : Follows (stale w plan) (fun _ => (· = .idle)) .idle := by
  unfold stale
  split
  case h_1 => rfl
  case h_2 =>
    refine .seq (R := fun _ => (· = .idle)) (.query fun _ _ => rfl) ?_
    rintro target _ rfl
    refine .seq (R := fun _ => (· = .idle)) (.query fun _ _ => rfl) ?_
    rintro now _ rfl
    exact .ofExcept (fun _ _ => rfl) fun _ _ => rfl

theorem follows_sweep_due (plan : RunPlan) (r : Sweep) :
    Follows (sweep_due cal sha256 schedule plan r) (fun _ => (· = .idle)) .idle := by
  refine .seq (R := fun _ => (· = .idle)) (.ofExcept (fun _ _ => rfl) fun _ _ => rfl) ?_
  rintro slots _ rfl
  refine .seq (R := fun _ => (· = .idle)) (follows_read trivial (fun _ => rfl) fun _ => rfl) ?_
  rintro existing _ rfl
  refine .seq (R := fun _ => (· = .idle)) (follows_read trivial (fun _ => rfl) fun _ => rfl) ?_
  rintro daily_usage _ rfl
  exact follows_sweep_slots slots _

theorem follows_sweep_active (r : Sweep) :
    Follows (sweep_active cal sha256 w schedule r) (fun _ => (· = .idle)) .idle := by
  refine .seq (R := fun _ => (· = .idle)) ?_ ?_
  · refine .seq (R := fun _ => (· = .idle)) (.query fun _ _ => rfl) ?_
    rintro plan _ rfl
    cases plan <;> rfl
  rintro plan _ rfl
  refine .seq (R := fun _ => (· = .idle)) (.query fun _ _ => rfl) ?_
  rintro authorization _ rfl
  refine .seq (R := fun _ => (· = .idle)) (.query fun _ _ => rfl) ?_
  rintro now _ rfl
  dsimp only
  split
  case isFalse => rfl
  case isTrue  =>
    refine .seq (follows_stale plan) ?_
    rintro stale _ rfl
    cases stale with
    | false => exact follows_sweep_due plan r
    | true  =>
      refine .seq (R := fun _ => (· = .idle)) (follows_read trivial (fun _ => rfl) fun _ => rfl) ?_
      rintro _ _ rfl
      rfl

theorem follows_sweep (r : Sweep) :
    Follows (sweep cal sha256 w r) (fun _ => (· = .idle)) .idle := by
  refine .seq (R := fun _ => (· = .idle)) (.ofExcept (fun _ _ => rfl) fun _ _ => rfl) ?_
  rintro _ _ rfl
  refine .seq (R := fun _ => (· = .idle)) (follows_read trivial (fun _ => rfl) fun _ => rfl) ?_
  rintro schedule _ rfl
  cases schedule with
  | none          => rfl
  | some schedule =>
    dsimp only
    split
    case h_1 => rfl
    case h_2 => exact follows_sweep_active r

end Orderly

section Effects

def State.slot_state (s : State) (slot : Slot) : Option SlotState :=
  (s.slots.find slot).map (·.state)

theorem slot_state_claim (s : State) (slot : Slot) (slot_at owner : String) :
    ((s.claim_schedule_slot slot slot_at owner).1 = .ok false ∧
      (s.claim_schedule_slot slot slot_at owner).2 = s) ∨
    ((s.claim_schedule_slot slot slot_at owner).1 = .ok true ∧ s.slot_state slot = none ∧
      (s.claim_schedule_slot slot slot_at owner).2.jobs = s.jobs ∧
      ∀ k, (s.claim_schedule_slot slot slot_at owner).2.slot_state k =
        if k = slot then some .claimed else s.slot_state k) := by
  unfold State.claim_schedule_slot
  dsimp only
  split
  case h_1          => exact .inl ⟨rfl, rfl⟩
  case h_2 slots hi =>
    refine .inr ⟨rfl, ?_, rfl, fun k => ?_⟩
    · exact congrArg (Option.map _) (Table.insert_eq_some_iff.mp hi).left
    · rw [State.slot_state, State.slot_state, Table.find_insert hi]
      change Option.map _ (if slot = k then _ else _) = _
      by_cases hk : k = slot
      · rw [if_pos hk, if_pos hk.symm]
        rfl
      · rw [if_neg hk, if_neg <| Ne.symm hk]

theorem slot_state_set (s : State) (slot : Slot) (state : SlotState) (job_id : Option String) :
    (s.set_schedule_slot_job slot state job_id).2.jobs = s.jobs ∧
      ∀ k, (s.set_schedule_slot_job slot state job_id).2.slot_state k =
        if k = slot then (s.slot_state k).map fun _ => state else s.slot_state k := by
  have hslots : (s.set_schedule_slot_job slot state job_id).2 = { s with
      slots := s.slots.update (·.slot = slot) (·.settle state job_id)
        fun _ => ScheduleSlotRecord.settle_slot } := by
    unfold State.set_schedule_slot_job
    dsimp only
    split <;> rfl
  rw [hslots]
  refine ⟨rfl, fun k => ?_⟩
  simp only [State.slot_state, Table.find_update]
  cases hk : s.slots.find k with
  | none   => split <;> rfl
  | some r =>
    have hr : r.slot = k := Table.key_of_find hk
    by_cases h : k = slot <;> simp [hr, h, ScheduleSlotRecord.settle]

theorem slots_enqueue (s : State) (queue : JobQueue) (now : Time) (uuid : ℕ → String)
    (schedule : ScheduleRecord) (slot_key : String) :
    (s.enqueue queue now uuid schedule slot_key).2.slots = s.slots ∧
    Jobs.KeyStep s.jobs.keys (s.enqueue queue now uuid schedule slot_key).2.jobs.keys ∧
    ∀ j, (s.enqueue queue now uuid schedule slot_key).1 = .ok j →
      idempotency_key (schedule.schedule_id, slot_key) ∈
        (s.enqueue queue now uuid schedule slot_key).2.jobs.keys := by
  refine ⟨rfl, Jobs.enqueue_keys.left, fun j hj => Jobs.enqueue_keys.right j ?_⟩
  exact Except.mapError_eq_ok_iff.mp hj

end Effects

-- What became of a slot, with the thread of the sweep that has it in hand.
inductive Fate (ι : Type)
  | unclaimed
  | claimed (i : ι)
  | enqueued (i : ι)
  | queued
  | failed
  -- Its sweep died after it enqueued the job.
  | abandoned
  -- Its sweep died before it enqueued the job.
  | lost
  deriving DecidableEq

namespace Fate

variable {ι : Type}

def row : Fate ι → Option SlotState
  | .unclaimed                                      => none
  | .claimed _ | .enqueued _ | .abandoned | .lost   => some .claimed
  | .queued                                         => some .queued
  | .failed                                         => some .failed

def jobs : Fate ι → ℕ
  | .unclaimed | .claimed _ | .failed | .lost => 0
  | .enqueued _ | .queued | .abandoned        => 1

def phase (slot : Slot) : Fate ι → Phase
  | .claimed _  => .claimed slot
  | .enqueued _ => .enqueued slot
  | _           => .idle

-- A slot that the sweep of thread `i` may have claimed.
def By (i : ι) : Fate ι → Prop
  | .claimed j | .enqueued j        => j = i
  | .queued | .failed               => True
  | .unclaimed | .abandoned | .lost => False

-- A slot that was claimed, and that no sweep has in hand any more.
def Left : Fate ι → Prop
  | .queued | .failed | .abandoned | .lost       => True
  | .unclaimed | .claimed _ | .enqueued _        => False

-- A slot whose next move is that of thread `i`.
def Open (i : ι) : Fate ι → Prop
  | .unclaimed                           => True
  | .claimed j | .enqueued j             => j = i
  | .queued | .failed | .abandoned | .lost => False

def die [DecidableEq ι] (i : ι) : Fate ι → Fate ι
  | .claimed j  => if j = i then .lost else .claimed j
  | .enqueued j => if j = i then .abandoned else .enqueued j
  | f           => f

variable {f : Fate ι} {i j : ι} {k k' : Slot}

theorem Open.not_left (h : f.Open i) : ¬f.Left := by
  cases f <;> simp_all [Open, Left]

theorem Open.by_eq (h : f.Open i) (hj : f.By j) : j = i := by
  cases f <;> simp_all [Open, By]

theorem By.claimed_iff (h : f.By i) : f.phase k = .claimed k ↔ f = .claimed i := by
  cases f <;> simp_all [phase, By]

theorem By.enqueued_iff (h : f.By i) : f.phase k = .enqueued k ↔ f = .enqueued i := by
  cases f <;> simp_all [phase, By]

theorem phase_ne (h : k' ≠ k) : f.phase k ≠ .claimed k' ∧ f.phase k ≠ .enqueued k' := by
  cases f <;> simp [phase, h.symm]

theorem jobs_le_one : f.jobs ≤ 1 := by
  cases f <;> simp [jobs]

section Die

variable [DecidableEq ι]

theorem row_die : (f.die i).row = f.row := by
  cases f with
  | claimed j | enqueued j => by_cases h : j = i <;> simp [die, row, h]
  | _                      => rfl

theorem jobs_die : (f.die i).jobs = f.jobs := by
  cases f with
  | claimed j | enqueued j => by_cases h : j = i <;> simp [die, jobs, h]
  | _                      => rfl

theorem die_ne : f.die i ≠ .claimed i ∧ f.die i ≠ .enqueued i := by
  cases f with
  | claimed j | enqueued j => by_cases h : j = i <;> simp [die, h]
  | _                      => simp [die]

theorem die_iff (hj : j ≠ i) :
    (f.die i = .claimed j ↔ f = .claimed j) ∧ (f.die i = .enqueued j ↔ f = .enqueued j) := by
  cases f with
  | claimed l | enqueued l => by_cases h : l = i <;> simp [die, h, hj.symm]
  | _                      => simp [die]

theorem By.die_of_ne (h : f.By j) (hj : j ≠ i) : (f.die i).By j := by
  cases f with
  | claimed l | enqueued l =>
    obtain rfl : l = j := h
    simp [Fate.die, By, hj]
  | _                      => exact h

theorem By.die (h : f.By i) : (f.die i).Left := by
  cases f with
  | claimed l | enqueued l =>
    obtain rfl : l = i := h
    simp [Fate.die, Left]
  | queued | failed        => trivial
  | _                      => exact h.elim

theorem Left.die (h : f.Left) : (f.die i).Left := by
  cases f with
  | claimed _ | enqueued _ | unclaimed => exact h.elim
  | _                                  => trivial

end Die

end Fate

-- What a run did with the slots: the jobs that its sweeps enqueued for each, the slots that the
-- running sweeps claimed, and those that sweeps claimed that crashed.
structure Ledger (ι : Type) where
  fate    : Slot → Fate ι
  jobs    : Slot → ℕ
  claims  : List (ι × Slot)
  crashed : List Slot

namespace Ledger

variable {ι : Type} [DecidableEq ι]

def empty : Ledger ι where
  fate _  := .unclaimed
  jobs _  := 0
  claims  := []
  crashed := []

def serve (L : Ledger ι) (i : ι) : Event sig → Ledger ι
  | ⟨.claim_schedule_slot slot _ _, .ok true⟩       => { L with
    fate   := Function.update L.fate slot (.claimed i)
    claims := (i, slot) :: L.claims }
  | ⟨.enqueue _ _ _ schedule slot_key, .ok _⟩       =>
    let slot := (schedule.schedule_id, slot_key)
    { L with
      fate := Function.update L.fate slot (.enqueued i)
      jobs := Function.update L.jobs slot (L.jobs slot + 1) }
  | ⟨.set_schedule_slot_job slot .queued _, _⟩      => { L with
    fate := Function.update L.fate slot .queued }
  | ⟨.set_schedule_slot_job slot .failed _, _⟩      => { L with
    fate := Function.update L.fate slot .failed }
  | _                                               => L

def record (L : Ledger ι) : Prog.Crew.Label ι sig → Ledger ι
  | .run i (some e) => L.serve i e
  | .run _ none     => L
  | .start i        => { L with claims := L.claims.filter (·.1 ≠ i) }
  | .die i          => { L with
    fate    := fun slot => (L.fate slot).die i
    claims  := L.claims.filter (·.1 ≠ i)
    crashed := L.crashed ++ (L.claims.filter (·.1 = i)).map Prod.snd }
  | .drift          => L

end Ledger

def ledger {ι : Type} [DecidableEq ι] (ls : List (Prog.Crew.Label ι sig)) : Ledger ι :=
  ls.foldl Ledger.record .empty

@[simp]
theorem ledger_snoc {ι : Type} [DecidableEq ι] (ls : List (Prog.Crew.Label ι sig))
    (l : Prog.Crew.Label ι sig) : ledger (ls ++ [l]) = (ledger ls).record l := by
  simp [ledger]

-- What holds between the ledger of a run, the phases of its sweeps and the tables.
structure Agrees {ι : Type} (L : Ledger ι) (phase : ι → Phase) (s : State) : Prop where
  row      : ∀ k, s.slot_state k = (L.fate k).row
  jobs     : ∀ k, L.jobs k = (L.fate k).jobs
  claimed  : ∀ i k, phase i = .claimed k ↔ L.fate k = .claimed i
  enqueued : ∀ i k, phase i = .enqueued k ↔ L.fate k = .enqueued i
  claims   : ∀ i k, (i, k) ∈ L.claims → (L.fate k).By i
  crashed  : ∀ k ∈ L.crashed, (L.fate k).Left
  keys     : s.jobs.keys.Nodup
  found    : ∀ k, 0 < L.jobs k → idempotency_key k ∈ s.jobs.keys

namespace Agrees

variable {ι : Type} {L L' : Ledger ι} {phase : ι → Phase} {s t : State} {i : ι}
variable {k : Slot} {f : Fate ι}

theorem empty (hs : s.slots.rows = []) (hj : s.jobs.keys.Nodup) :
    Agrees (ι := ι) .empty (fun _ => .idle) s where
  row k       := by simp [State.slot_state, Table.find, hs, Ledger.empty, Fate.row]
  jobs k      := rfl
  claimed     := by simp [Ledger.empty]
  enqueued    := by simp [Ledger.empty]
  claims      := by simp [Ledger.empty]
  crashed     := by simp [Ledger.empty]
  keys        := hj
  found k h   := by simp [Ledger.empty] at h

-- What leaves the slots as they are.
theorem of_keys (h : Agrees L phase s) (hs : t.slots = s.slots)
    (hk : Jobs.KeyStep s.jobs.keys t.jobs.keys) : Agrees L phase t :=
  { h with
    row k      := by rw [← h.row k, State.slot_state, State.slot_state, hs]
    keys       := hk.nodup h.keys
    found k hj := hk.mem <| h.found k hj }

variable [DecidableEq ι]

-- A thread that has no other slot in hand takes one to its next fate.
theorem move (h : Agrees L phase s) (hopen : (L.fate k).Open i) (hf : f.By i)
    (hidle : ∀ k', k' ≠ k → phase i ≠ .claimed k' ∧ phase i ≠ .enqueued k')
    (hfate : L'.fate = Function.update L.fate k f)
    (hjobs : L'.jobs = Function.update L.jobs k f.jobs)
    (hclaims : ∀ c ∈ L'.claims, c = (i, k) ∨ c ∈ L.claims) (hcrashed : L'.crashed = L.crashed)
    (hrow : ∀ k', t.slot_state k' = if k' = k then f.row else s.slot_state k')
    (hkeys : Jobs.KeyStep s.jobs.keys t.jobs.keys)
    (hfound : 0 < f.jobs → idempotency_key k ∈ t.jobs.keys) :
    Agrees L' (Function.update phase i (f.phase k)) t where
  row k'         := by
    rw [hrow, hfate]
    by_cases hk : k' = k
    · subst hk
      simp
    · simp [hk, h.row]
  jobs k'        := by
    rw [hjobs, hfate]
    by_cases hk : k' = k
    · subst hk
      simp
    · simp [hk, h.jobs]
  claimed j k'   := by
    rw [hfate]
    by_cases hk : k' = k
    · subst hk
      by_cases hj : j = i
      · subst hj
        simpa using hf.claimed_iff
      · have hold : L.fate k' ≠ .claimed j := fun he => hj <| hopen.by_eq <| he ▸ rfl
        have hnew : f ≠ .claimed j := by
          rintro rfl
          exact hj <| hf
        simpa [hj, hnew] using mt (h.claimed j k').mp hold
    · by_cases hj : j = i
      · subst hj
        have hold := mt (h.claimed j k').mpr (hidle k' hk).left
        simp [hk, hold, Fate.phase_ne hk]
      · simp [hk, hj, h.claimed]
  enqueued j k'  := by
    rw [hfate]
    by_cases hk : k' = k
    · subst hk
      by_cases hj : j = i
      · subst hj
        simpa using hf.enqueued_iff
      · have hold : L.fate k' ≠ .enqueued j := fun he => hj <| hopen.by_eq <| he ▸ rfl
        have hnew : f ≠ .enqueued j := by
          rintro rfl
          exact hj <| hf
        simpa [hj, hnew] using mt (h.enqueued j k').mp hold
    · by_cases hj : j = i
      · subst hj
        have hold := mt (h.enqueued j k').mpr (hidle k' hk).right
        simp [hk, hold, Fate.phase_ne hk]
      · simp [hk, hj, h.enqueued]
  claims j k' hc := by
    rw [hfate]
    by_cases hk : k' = k
    · subst hk
      rcases hclaims _ hc with hc | hc
      · cases hc
        simpa using hf
      · obtain rfl := hopen.by_eq <| h.claims j k' hc
        simpa using hf
    · have hc := (hclaims _ hc).resolve_left fun he => hk (Prod.mk.inj he).right
      simpa [hk] using h.claims j k' hc
  crashed k' hc  := by
    rw [hcrashed] at hc
    have hl := h.crashed k' hc
    by_cases hk : k' = k
    · exact absurd (hk ▸ hl) hopen.not_left
    · simpa [hfate, hk] using hl
  keys           := hkeys.nodup h.keys
  found k' hj    := by
    rw [hjobs] at hj
    by_cases hk : k' = k
    · subst hk
      exact hfound <| by simpa using hj
    · exact hkeys.mem <| h.found k' <| by simpa [hk] using hj

theorem serve_claim {slot : Slot} {slot_at owner : String} {r : Except Error Bool}
    (h : Agrees L phase s) (ha : (phase i).allows (.claim_schedule_slot slot slot_at owner))
    (he : s.claim_schedule_slot slot slot_at owner = (r, t)) :
    Agrees (L.serve i ⟨.claim_schedule_slot slot slot_at owner, r⟩)
      (Function.update phase i ((phase i).next ⟨.claim_schedule_slot slot slot_at owner, r⟩)) t := by
  have hp : phase i = .idle := by
    cases hp : phase i with
    | idle       => rfl
    | claimed _  => simp [hp, Phase.allows] at ha
    | enqueued _ => simp [hp, Phase.allows] at ha
  have hclaim := slot_state_claim s slot slot_at owner
  rw [he] at hclaim
  rcases hclaim with ⟨rfl, rfl⟩ | ⟨rfl, hnone, hjobs, hrow⟩
  · exact (Function.update_eq_self i phase).symm ▸ h
  · have hfate : L.fate slot = .unclaimed := by
      have hr := (h.row slot).symm.trans hnone
      cases hl : L.fate slot <;> simp [hl, Fate.row] at hr ⊢
    have hj : L.jobs slot = Fate.jobs (.claimed i) := by
      rw [h.jobs, hfate]
      rfl
    refine h.move (f := .claimed i) (hfate ▸ trivial) rfl (fun k' _ => by simp [hp]) rfl ?_
      (fun c hc => List.mem_cons.mp hc) rfl hrow (hjobs ▸ .keep) (fun hf => absurd hf (by simp [Fate.jobs]))
    rw [← hj]
    exact (Function.update_eq_self slot L.jobs).symm

theorem serve_enqueue {queue : JobQueue} {now : Time} {uuid : ℕ → String}
    {schedule : ScheduleRecord} {slot_key : String} {r : Except Error JobRecord}
    (h : Agrees L phase s) (ha : (phase i).allows (.enqueue queue now uuid schedule slot_key))
    (he : s.enqueue queue now uuid schedule slot_key = (r, t)) :
    Agrees (L.serve i ⟨.enqueue queue now uuid schedule slot_key, r⟩)
      (Function.update phase i
        ((phase i).next ⟨.enqueue queue now uuid schedule slot_key, r⟩)) t := by
  let slot := (schedule.schedule_id, slot_key)
  have hp : phase i = .claimed slot := by
    cases hp : phase i with
    | idle       => simp [hp, Phase.allows] at ha
    | claimed k  =>
      rw [hp] at ha
      exact congrArg Phase.claimed <| Eq.symm ha
    | enqueued _ => simp [hp, Phase.allows] at ha
  have hfate : L.fate slot = .claimed i := (h.claimed i slot).mp hp
  have hjobs : L.jobs slot = 0 := by
    rw [h.jobs, hfate]
    rfl
  obtain ⟨hslots, hkeys, hok⟩ := slots_enqueue s queue now uuid schedule slot_key
  rw [he] at hslots hkeys hok
  cases r with
  | error e => exact (Function.update_eq_self i phase).symm ▸ h.of_keys hslots hkeys
  | ok j    =>
    refine h.move (f := .enqueued i) (hfate ▸ rfl) rfl (fun k' hk => ?_) rfl ?_
      (fun c hc => .inr hc) rfl (fun k' => ?_) hkeys fun _ => hok j rfl
    · simpa [hp] using Ne.symm hk
    · change Function.update L.jobs slot (L.jobs slot + 1) = _
      rw [hjobs]
      rfl
    · rw [State.slot_state, hslots]
      by_cases hk : k' = slot
      · rw [if_pos hk, hk]
        exact (h.row slot).trans <| by rw [hfate]; rfl
      · rw [if_neg hk]
        rfl

theorem serve_set {slot : Slot} {state : SlotState} {job_id : Option String}
    {r : Except Error ScheduleSlotRecord} (h : Agrees L phase s)
    (ha : (phase i).allows (.set_schedule_slot_job slot state job_id))
    (he : s.set_schedule_slot_job slot state job_id = (r, t)) :
    Agrees (L.serve i ⟨.set_schedule_slot_job slot state job_id, r⟩)
      (Function.update phase i .idle) t := by
  obtain ⟨hjobs, hrow⟩ := slot_state_set s slot state job_id
  rw [he] at hjobs hrow
  have hset : ∀ f : Fate ι, (L.fate slot).row.isSome → f.row = some state →
      ∀ k', t.slot_state k' = if k' = slot then f.row else s.slot_state k' := by
    intro f hsome hf k'
    rw [hrow]
    by_cases hk : k' = slot
    · obtain ⟨x, hx⟩ := Option.isSome_iff_exists.mp hsome
      rw [if_pos hk, if_pos hk, hk, h.row, hx, hf]
      rfl
    · rw [if_neg hk, if_neg hk]
  cases hp : phase i with
  | idle       => simp [hp, Phase.allows] at ha
  | claimed k  =>
    cases state with
    | claimed | queued => simp [hp, Phase.allows] at ha
    | failed           =>
      obtain rfl : slot = k := by simpa [hp, Phase.allows] using ha
      have hfate : L.fate slot = .claimed i := (h.claimed i slot).mp hp
      refine h.move (f := .failed) (hfate ▸ rfl) trivial (fun k' hk => ?_) rfl ?_
        (fun c hc => .inr hc) rfl (hset _ (hfate ▸ rfl) rfl) (hjobs ▸ .keep)
        fun hf => absurd hf (by simp [Fate.jobs])
      · simpa [hp] using Ne.symm hk
      · have hj : L.jobs slot = Fate.jobs (ι := ι) .failed := by
          rw [h.jobs, hfate]
          rfl
        rw [← hj]
        exact (Function.update_eq_self slot L.jobs).symm
  | enqueued k =>
    cases state with
    | claimed | failed => simp [hp, Phase.allows] at ha
    | queued           =>
      obtain rfl : slot = k := by simpa [hp, Phase.allows] using ha
      have hfate : L.fate slot = .enqueued i := (h.enqueued i slot).mp hp
      have hj : L.jobs slot = Fate.jobs (ι := ι) .queued := by
        rw [h.jobs, hfate]
        rfl
      refine h.move (f := .queued) (hfate ▸ rfl) trivial (fun k' hk => ?_) rfl ?_
        (fun c hc => .inr hc) rfl (hset _ (hfate ▸ rfl) rfl) (hjobs ▸ .keep)
        fun _ => hjobs ▸ h.found slot (hj ▸ Nat.one_pos)
      · simpa [hp] using Ne.symm hk
      · rw [← hj]
        exact (Function.update_eq_self slot L.jobs).symm

-- A call that the phase of its sweep allows.
theorem serve {e : Event sig} (h : Agrees L phase s) (ha : (phase i).allows e.call)
    (he : store.perform e.call s = (e.reply, t)) :
    Agrees (L.serve i e) (Function.update phase i ((phase i).next e)) t := by
  obtain ⟨c, r⟩ := e
  have keep {u : State} (hs : u.slots = s.slots) (hj : u.jobs = s.jobs) :
      Agrees L (Function.update phase i (phase i)) u :=
    (Function.update_eq_self i phase).symm ▸ h.of_keys hs (hj ▸ .keep)
  cases c with
  | claim_schedule_slot                        => exact h.serve_claim ha he
  | enqueue                                    => exact h.serve_enqueue ha he
  | set_schedule_slot_job                      => exact h.serve_set ha he
  | get_schedule | list_schedule_slots | get_schedule_daily_cost_usage =>
    obtain ⟨-, rfl⟩ := Prod.mk.inj he
    exact keep rfl rfl
  | set_schedule_state schedule_id state       =>
    change s.set_schedule_state schedule_id state = (r, t) at he
    unfold State.set_schedule_state at he
    split at he
    case h_1 =>
      obtain ⟨-, rfl⟩ := Prod.mk.inj he
      exact keep rfl rfl
    case h_2 =>
      obtain ⟨-, rfl⟩ := Prod.mk.inj he
      exact keep rfl rfl

theorem start (h : Agrees L phase s) (hi : phase i = .idle) :
    Agrees (L.record (.start i)) (Function.update phase i .idle) s := by
  have hphase : Function.update phase i .idle = phase := hi ▸ Function.update_eq_self i phase
  rw [hphase]
  exact { h with claims j k hc := h.claims j k (List.mem_filter.mp hc).left }

theorem die (h : Agrees L phase s) :
    Agrees (L.record (.die i)) (Function.update phase i .idle) s where
  row k          := (h.row k).trans <| Fate.row_die.symm
  jobs k         := (h.jobs k).trans <| Fate.jobs_die.symm
  claimed j k    := by
    change _ ↔ (L.fate k).die i = .claimed j
    by_cases hj : j = i
    · subst hj
      simpa using Fate.die_ne.left
    · simpa [hj] using (h.claimed j k).trans (Fate.die_iff hj).left.symm
  enqueued j k   := by
    change _ ↔ (L.fate k).die i = .enqueued j
    by_cases hj : j = i
    · subst hj
      simpa using Fate.die_ne.right
    · simpa [hj] using (h.enqueued j k).trans (Fate.die_iff hj).right.symm
  claims j k hc  := by
    obtain ⟨hc, hj⟩ := List.mem_filter.mp hc
    exact (h.claims j k hc).die_of_ne <| by simpa using hj
  crashed k hc   := by
    rcases List.mem_append.mp hc with hc | hc
    · exact (h.crashed k hc).die
    · obtain ⟨⟨j, k'⟩, hjk, rfl⟩ := List.mem_map.mp hc
      obtain ⟨hmem, hj⟩ := List.mem_filter.mp hjk
      obtain rfl : j = i := by simpa using hj
      exact (h.claims j k' hmem).die
  keys           := h.keys
  found          := h.found

end Agrees

-- What goes on beside the sweeps: schedules are made, paused and resumed, jobs run and their
-- costs are measured.
inductive Drift : State → State → Prop
  | schedules (schedules : Table ScheduleRecord.schedule_id) : Drift s { s with schedules }
  | jobs (c : Jobs.Call) : Drift s { s with jobs := (Jobs.store.perform c s.jobs).2 }
  | costs (cost_summaries : List CostSummary) : Drift s { s with cost_summaries }

-- Workers that sweep schedules, each sweep with arguments of its own.
def crew (cal : Calendar) (sha256 : String → String) (w : Plans.World) (ι : Type) :
    Prog.Crew ι store (List JobRecord) where
  allow _ _    := True
  ready _ _    := True
  programs _ p := ∃ r, p = sweep cal sha256 w r
  init s       := s.slots.rows = [] ∧ s.jobs.jobs.rows = []
  abandon _ s  := s
  drift        := Drift
  idle         := .pure []

section Runs

variable {cal : Calendar} {sha256 : String → String} {w : Plans.World} {ι : Type} [DecidableEq ι]
variable {x y : Prog.Pool ι store (List JobRecord)} {ls : List (Prog.Crew.Label ι sig)}

theorem agrees_of_run (hx : (crew cal sha256 w ι).machine.init x)
    (r : (crew cal sha256 w ι).machine.Run x ls y) :
    Agrees (ledger ls) (protocol.phases .idle ls) y.store := by
  have hprograms : ∀ i p, (crew cal sha256 w ι).programs i p →
      Prog.Crew.Orderly protocol (· = .idle) p .idle := by
    rintro i _ ⟨r, rfl⟩
    exact follows_sweep r
  induction r with
  | refl         => exact .empty hx.right.left <| by simp [Jobs.State.keys, hx.right.right]
  | step r st ih =>
    have horder := Prog.Crew.orderly (P := protocol) (w := crew cal sha256 w ι) rfl trivial
      (by rfl) hprograms hx r
    rw [ledger_snoc, Prog.Protocol.phases_snoc]
    cases st with
    | run i e p t st _ =>
      have hallowed := ((horder i).step st).left
      have hserved := st.serves
      cases e with
      | some e => exact ih.serve (hallowed e rfl) hserved
      | none   => exact hserved ▸ ih
    | start i p he _   => exact ih.start <| (horder i).done_of_ended he
    | die i            => exact ih.die
    | drift t hd       =>
      cases hd with
      | schedules => exact ih.of_keys rfl .keep
      | jobs c    => exact ih.of_keys rfl <| Jobs.perform_keys c _
      | costs     => exact ih.of_keys rfl .keep

-- The job of the slot was enqueued, or the slot is marked failed.
def Settled (L : Ledger ι) (s : State) (slot : Slot) : Prop :=
  0 < L.jobs slot ∨ s.slot_state slot = some .failed

omit [DecidableEq ι] in
theorem Agrees.settled_iff {L : Ledger ι} {phase : ι → Phase} {s : State} {slot : Slot}
    (h : Agrees L phase s) (hl : (L.fate slot).Left) :
    Settled L s slot ↔ L.fate slot ≠ .lost := by
  unfold Settled
  rw [h.jobs, h.row]
  cases hf : L.fate slot <;> simp_all [Fate.jobs, Fate.row, Fate.Left]

-- No slot gets two jobs, and a slot of a sweep that crashed gets its job or is marked failed unless
-- the sweep died between the claim and the job.
theorem slots_settled (hx : (crew cal sha256 w ι).machine.init x)
    (r : (crew cal sha256 w ι).machine.Run x ls y) :
    (∀ slot, (ledger ls).jobs slot ≤ 1 ∧ y.store.jobs.keys.count (idempotency_key slot) ≤ 1 ∧
      (0 < (ledger ls).jobs slot → idempotency_key slot ∈ y.store.jobs.keys)) ∧
    ∀ slot ∈ (ledger ls).crashed,
      Settled (ledger ls) y.store slot ↔ (ledger ls).fate slot ≠ .lost := by
  have h := agrees_of_run hx r
  refine ⟨fun slot => ⟨?_, List.nodup_iff_count_le_one.mp h.keys _, h.found slot⟩,
    fun slot hs => h.settled_iff <| h.crashed slot hs⟩
  rw [h.jobs]
  exact Fate.jobs_le_one

-- The slot is one that the sweep is to see to.
def Sweep.Covers (cal : Calendar) (sha256 : String → String) (r : Sweep) (s : State) (slot : Slot) :
    Prop :=
  ∃ schedule slots, s.schedules.find r.schedule_id = some schedule ∧
    due_daily_slots cal schedule.local_time schedule.timezone schedule.dst_policy r.start r.stop =
      .ok slots ∧
    slot ∈ slots.map fun date => (schedule.schedule_id, enqueue_key sha256 schedule.schedule_id
      (cal.isoformat schedule.timezone date schedule.local_time))

end Runs

namespace Crash

def calendar : Calendar where
  max              := 3652059
  known _          := true
  isoformat _ _ _  := "2026-03-07T09:00:00+05:30"
  roundtrips _ _ _ := true
  strftime _       := "2026-03-07"

def world : Plans.World where
  get _           := none
  project _       := true
  fromisoformat _ := none
  str _           := ""

theorem half_minute : 0 < 30 :=
  Nat.succ_pos 29

def queue : JobQueue where
  lease_seconds     := 30
  lease_seconds_pos := half_minute
  fingerprint _     := "digest"
  patterns          := {
    canary _         := none
    provider_token _ := none
    bearer _         := none
    secret _         := none
    sensitive_key _  := false
  }

def env : ∀ q, sig.Answer q
  | .run_plan _          => some ⟨"hash", .validated, [], 0⟩
  | .run_authorization _ => some ⟨"authorized", 1⟩
  | .version _           => none
  | .now                 => (0 : Int)
  | .uuid4               => fun i => toString i
  | .queue               => .ok queue

def schedule : ScheduleRecord where
  schedule_id             := "schedule"
  plan_id                 := "plan"
  plan_hash               := "hash"
  authorization_id        := "authorization"
  timezone                := "Asia/Kolkata"
  local_time              := "09:00"
  state                   := .active
  dst_policy              := .first
  daily_request_limit     := 2
  daily_budget_usd_micros := 0

def initial : State where
  schedules      := ⟨[schedule], by decide⟩
  slots          := .empty
  jobs           := .empty
  cost_summaries := []

def sweep_of (owner : String) : Sweep where
  actor       := ⟨"owner", "workspace", .owner⟩
  schedule_id := "schedule"
  start       := 739682
  stop        := 739682
  owner

def slot : Slot :=
  ("schedule", enqueue_key id "schedule" "2026-03-07T09:00:00+05:30")

abbrev workers : Prog.Crew ℕ store (List JobRecord) :=
  crew calendar id world ℕ

def pool : Prog.Pool ℕ store (List JobRecord) where
  threads _ := .pure []
  store     := initial

-- A sweep that dies after `n` of its steps.
def crashed (n : ℕ) : List (Prog.Crew.Label ℕ sig) × Prog.Pool ℕ store (List JobRecord) :=
  workers.play env ([.start 0 (sweep calendar id world (sweep_of "first"))] ++
    List.replicate n (.run 0) ++ [.die 0]) pool

theorem init : workers.machine.init pool :=
  ⟨fun _ => rfl, rfl, rfl⟩

theorem run (n : ℕ) : workers.machine.Run pool (crashed n).1 (crashed n).2 := by
  refine Prog.Crew.play_run (fun _ => trivial) (fun _ _ => trivial) _ (fun i p h => ?_) pool
  simp only [List.mem_append, List.mem_singleton, List.mem_replicate] at h
  rcases h with (h | h) | h
  · obtain ⟨-, rfl⟩ := Prog.Crew.Turn.start.inj h
    exact ⟨_, rfl⟩
  · cases h.right
  · cases h

end Crash

open Crash in
theorem slots_settled_crashed : ¬Settled (ledger (crashed 7).1) (crashed 7).2.store slot := by
  have h := (slots_settled init (run 7)).right slot (by decide)
  exact fun hs => h.mp hs (by decide)

-- The sweep that comes next passes over the slot that the first one claimed.
open Crash in
theorem not_slots_settled : ¬ ∀ (cal : Calendar) (sha256 : String → String) (w : Plans.World)
    (x y : Prog.Pool ℕ store (List JobRecord)) (ls : List (Prog.Crew.Label ℕ sig)),
    (crew cal sha256 w ℕ).machine.init x → (crew cal sha256 w ℕ).machine.Run x ls y →
    ∀ slot ∈ (ledger ls).crashed, ∀ env r, r.Covers cal sha256 y.store slot →
    ((sweep cal sha256 w r).eval store env y.store).1.isOk →
    idempotency_key slot ∈ ((sweep cal sha256 w r).eval store env y.store).2.jobs.keys ∨
      ((sweep cal sha256 w r).eval store env y.store).2.slot_state slot = some .failed := by
  intro h
  have hcovers : (sweep_of "second").Covers calendar id (crashed 7).2.store slot :=
    ⟨schedule, [739682], by decide, rfl, .head _⟩
  have hsettled := h calendar id world pool _ _ init (run 7) slot (by decide) env
    (sweep_of "second") hcovers (by decide +kernel)
  revert hsettled
  decide

end Schedules
