import Traceline.Jobs.Theorems.Step
import Traceline.Jobs.Worker
import Traceline.Library.Rotation

open Rotation

namespace Jobs

-- A job waits in the queue, or comes back to it once its lease has run out.
def HasWork (now : Time) (s : State) : Prop :=
  ∃ j ∈ s.jobs, (expireIf now j).claimable

section Claim

variable {self : JobQueue} {now : Time} {uuid : ℕ → String} {s : State} {w : String}

theorem next_queued_isSome (h : ∃ j ∈ s.jobs, j.claimable) :
    ∃ j ∈ s.jobs, j.claimable ∧ s.next_queued = some j := by
  obtain ⟨j, hj, hc⟩ := h
  have hne : s.jobs.rows.filter (·.claimable) ≠ [] :=
    List.ne_nil_of_mem <| List.mem_filter.mpr ⟨hj, hc⟩
  cases hq : s.next_queued with
  | none   =>
    rw [State.next_queued, List.head?_eq_none_iff, ← List.length_eq_zero_iff,
      List.length_mergeSort, List.length_eq_zero_iff] at hq
    exact absurd hq hne
  | some i =>
    have hmem := (List.mergeSort_perm _ _).mem_iff.mp <| List.mem_of_mem_head? hq
    obtain ⟨hi, hc⟩ := List.mem_filter.mp hmem
    exact ⟨i, hi, hc, rfl⟩

theorem lease_granted {id : String} {j : JobRecord} (hj : s.jobs.find id = some j)
    (hc : j.claimable) :
    (self.lease now uuid s id w).1 = .ok (some (j.grant w (self.lease_until now) now)) := by
  rw [JobQueue.lease, if_pos (by simpa [hj] using hc)]
  have hid := Table.key_of_find hj
  simp [State.row, State.emit, hj, hid, hc, Except.map]

-- Where there is work a claim is granted.
theorem claim_of_hasWork (hw : w ≠ "") (h : HasWork now s) :
    ∃ j, (self.claim now uuid s w).1 = .ok (some j) := by
  obtain ⟨j, hj, hc⟩ := h
  have hexpired : ∃ j ∈ (s.expire_and_cancel uuid now).jobs, j.claimable :=
    ⟨expireIf now j, List.mem_map.mpr ⟨j, hj, rfl⟩, hc⟩
  obtain ⟨i, hi, hic, hnext⟩ := next_queued_isSome hexpired
  rw [JobQueue.claim, if_neg hw]
  simp only [hnext]
  exact ⟨_, lease_granted (Table.find_eq_some_iff.mpr ⟨hi, rfl⟩) hic⟩

end Claim

-- A poll of a workspace that has work is granted a job.
def Poll.Honest (poll : Poll) : Prop :=
  HasWork poll.now (poll.jobs poll.workspace_id) → poll.lease.isSome

namespace WorkflowService

variable {self : WorkflowService} {actors : List Actor} {worker_id : Option String} {actor : Actor}
variable {turn : Turn} {turns : ℕ → Turn} {world world' world'' : Installation}
variable {result : Option JobRecord} {start offset left next m v : ℕ}

theorem or_default_ne_empty {default : String} (h : default ≠ "") :
    or_default worker_id default ≠ "" := by
  cases worker_id with
  | none    => exact h
  | some id =>
    by_cases hid : id = ""
    case pos => rwa [or_default, Option.filter_some_neg (by simpa using hid)]
    case neg => rwa [or_default, Option.filter_some_pos (by simpa using hid)]

theorem identity_ne_empty : "worker:" ++ turn.identity ≠ "" := by
  intro h
  have hlength := congrArg String.length h
  rw [String.length_append] at hlength
  cases Nat.eq_zero_of_add_eq_zero_right hlength

theorem run_once_spec (h : self.run_once worker_id actor turn world = (.ok result, world')) :
    ∃ poll : Poll, world'.log = world.log ++ [poll] ∧ world'.cursors = world.cursors ∧
      poll.workspace_id = actor.workspace_id ∧ poll.Honest := by
  unfold run_once at h
  simp only at h
  split at h
  case h_1 => cases h
  case h_2 hclaim =>
    obtain ⟨-, rfl⟩ := Prod.mk.injEq .. ▸ h
    refine ⟨_, rfl, rfl, rfl, fun hwork => ?_⟩
    obtain ⟨j, hj⟩ := claim_of_hasWork (or_default_ne_empty identity_ne_empty) hwork
    cases hclaim.symm.trans hj
  case h_3 =>
    obtain ⟨-, rfl⟩ := Prod.mk.injEq .. ▸ h
    exact ⟨_, rfl, rfl, rfl, fun _ => rfl⟩

-- What a call does from the offset on: it visits one workspace after the other, and the next call
-- starts behind one that it has visited.
structure Visits (actors : List Actor) (start offset v : ℕ) (polls : List Poll) : Prop where
  from_offset : ∀ k, offset ≤ k → k < v → ∀ actor, actors[(start + k) % actors.length]? = some actor →
    ∃ poll ∈ polls, poll.workspace_id = actor.workspace_id
  honest      : ∀ poll ∈ polls, poll.Honest

-- What one more round of the loop does.
theorem poll_from_succ {hpos : 0 < actors.length}
    (h : self.poll_from actors worker_id turns hpos start offset (left + 1) world =
      (.ok (result, next), world')) :
    ∃ actor job? polled, actors[(start + offset) % actors.length]? = some actor ∧
      self.run_once worker_id actor (turns offset) world = (.ok job?, polled) ∧
      ((job? = result ∧ world' = polled ∧ next = (start + offset + 1) % actors.length) ∨
        self.poll_from actors worker_id turns hpos start (offset + 1) left polled =
          (.ok (result, next), world')) := by
  have hlt : (start + offset) % actors.length < actors.length := Nat.mod_lt _ hpos
  refine ⟨actors.get ⟨(start + offset) % actors.length, hlt⟩, ?_⟩
  have hactor : actors[(start + offset) % actors.length]? =
      some (actors.get ⟨(start + offset) % actors.length, hlt⟩) := List.getElem?_eq_getElem hlt
  rw [poll_from] at h
  generalize actors.get ⟨(start + offset) % actors.length, hlt⟩ = actor at h hactor ⊢
  cases hpolled : self.run_once worker_id actor (turns offset) world with
  | mk answer polled =>
    simp only [hpolled] at h
    cases answer with
    | error e => cases congrArg Prod.fst h
    | ok job? =>
      refine ⟨job?, polled, hactor, rfl, ?_⟩
      cases job? with
      | none     => exact .inr h
      | some job =>
        rw [Prod.mk.injEq, Except.ok.injEq, Prod.mk.injEq] at h
        exact .inl ⟨h.left.left, h.right.symm, h.left.right.symm⟩

theorem poll_from_spec {hpos : 0 < actors.length} (hleft : offset + left = actors.length)
    (h : self.poll_from actors worker_id turns hpos start offset left world =
      (.ok (result, next), world')) :
    ∃ v m polls, world'.log = world.log ++ polls ∧ world'.cursors = world.cursors ∧
      Visits actors start offset v polls ∧ 1 ≤ m ∧ m ≤ v ∧
      next = (start + m) % actors.length := by
  induction left generalizing offset world with
  | zero         =>
    rw [poll_from, Prod.mk.injEq, Except.ok.injEq, Prod.mk.injEq] at h
    obtain ⟨⟨-, rfl⟩, rfl⟩ := h
    refine ⟨actors.length, 1, [], (List.append_nil _).symm, rfl, ⟨fun k hk hlt => ?_,
      List.forall_mem_nil _⟩, le_rfl, hpos, rfl⟩
    omega
  | succ left ih =>
    obtain ⟨actor, job?, polled, hactor, hpolled, hrest⟩ := poll_from_succ h
    obtain ⟨poll, hlog, hcursors, hid, hhonest⟩ := run_once_spec hpolled
    have hhere : ∀ other, actors[(start + offset) % actors.length]? = some other →
        poll.workspace_id = other.workspace_id := by
      intro other hother
      cases hactor.symm.trans hother
      exact hid
    rcases hrest with ⟨-, rfl, rfl⟩ | hrest
    · refine ⟨offset + 1, offset + 1, [poll], hlog, hcursors,
        ⟨fun k hk hlt other hother => ?_, List.forall_mem_singleton.mpr hhonest⟩, by omega, le_rfl,
        rfl⟩
      obtain rfl : k = offset := by omega
      exact ⟨poll, .head _, hhere other hother⟩
    · obtain ⟨v, m, polls, hlog', hcursors', hvisits, hm, hmv, hnext⟩ := ih (by omega) hrest
      refine ⟨v, m, poll :: polls, ?_, hcursors'.trans hcursors,
        ⟨fun k hk hlt other hother => ?_, ?_⟩, hm, hmv, hnext⟩
      · rw [hlog', hlog, List.append_assoc, List.singleton_append]
      · rcases hk.eq_or_lt with rfl | hk
        · exact ⟨poll, .head _, hhere other hother⟩
        · obtain ⟨p, hp, hpid⟩ := hvisits.from_offset k hk hlt other hother
          exact ⟨p, .tail _ hp, hpid⟩
      · exact List.forall_mem_cons.mpr ⟨hhonest, hvisits.honest⟩

structure Call where
  worker_id : Option String
  cursor    : Int
  turns     : ℕ → Turn

-- Successful calls one after the other. Without a durable cursor each gets what the last returned.
inductive Calls (self : WorkflowService) (actors : List Actor) :
    Installation → List Call → Installation → Prop
  | nil {w} : Calls self actors w [] w
  | cons {w w' w'' call result calls} {next : ℕ} :
    self.run_fair_once actors call.worker_id call.cursor call.turns w = (.ok (result, next), w') →
    (self.is_postgres = false → ∀ c ∈ calls.head?, c.cursor = (next : Int)) →
    Calls self actors w' calls w'' → Calls self actors w (call :: calls) w''

-- All the calls share one durable cursor.
def OnePool (calls : List Call) : Prop :=
  ∀ c ∈ calls, ∀ c' ∈ calls, pool_id c.worker_id = pool_id c'.worker_id

variable {call call' : Call} {calls : List Call} {cursors cursors' : String → Option DispatchCursor}

theorem run_fair_once_spec
    (h : self.run_fair_once actors call.worker_id call.cursor call.turns world =
      (.ok (result, next), world')) :
    0 < actors.length ∧ ∃ start v m polls,
      self.fair_start actors call.worker_id call.cursor.toNat world.cursors =
        (.ok start, world'.cursors) ∧
      world'.log = world.log ++ polls ∧ Visits actors start 0 v polls ∧ 1 ≤ m ∧ m ≤ v ∧
      next = (start + m) % actors.length := by
  unfold run_fair_once at h
  split at h
  case isFalse => cases congrArg Prod.fst h
  case isTrue hpos =>
    split at h
    case isTrue => cases congrArg Prod.fst h
    case isFalse =>
      split at h
      case isTrue => cases congrArg Prod.fst h
      case isFalse =>
        cases hstart : self.fair_start actors call.worker_id call.cursor.toNat world.cursors with
        | mk answer reserved =>
          simp only [hstart] at h
          cases answer with
          | error e  => cases congrArg Prod.fst h
          | ok start =>
            obtain ⟨v, m, polls, hlog, hcursors, hvisits, hm, hmv, hnext⟩ :=
              poll_from_spec (Nat.zero_add _) h
            exact ⟨hpos, start, v, m, polls, by rw [hcursors], hlog, hvisits, hm, hmv, hnext⟩

theorem fair_start_sqlite (hp : self.is_postgres = false) :
    self.fair_start actors worker_id m cursors = (.ok (m % actors.length), cursors) := by
  rw [fair_start, hp]
  rfl

theorem fair_start_postgres (hp : self.is_postgres = true)
    (h : self.fair_start actors worker_id m cursors = (.ok start, cursors')) :
    cursors' (pool_id worker_id) =
        some ⟨self.digest (actors.map (·.workspace_id)), (start + 1) % actors.length⟩ ∧
      ∀ row ∈ cursors (pool_id worker_id),
        row.actor_digest = self.digest (actors.map (·.workspace_id)) →
          start = row.cursor % actors.length := by
  unfold fair_start at h
  simp only [hp, Bool.not_true, Bool.false_eq_true, if_false] at h
  split at h
  case isTrue => cases congrArg Prod.fst h
  case isFalse =>
    split at h
    case h_1 hnone =>
      rw [Prod.mk.injEq, Except.ok.injEq] at h
      obtain ⟨rfl, rfl⟩ := h
      exact ⟨Function.update_self .., by simp [hnone]⟩
    case h_2 row hrow =>
      split at h <;> rw [Prod.mk.injEq, Except.ok.injEq] at h <;> obtain ⟨rfl, rfl⟩ := h
      case isTrue hne  =>
        refine ⟨Function.update_self .., fun r hr hd => ?_⟩
        cases hrow.symm.trans hr
        exact absurd hd hne
      case isFalse he =>
        refine ⟨Function.update_self .., fun r hr _ => ?_⟩
        cases hrow.symm.trans hr
        rfl

theorem fair_start_fresh (hp : self.is_postgres = true)
    (hbound : 1 ≤ (pool_id worker_id).length ∧ (pool_id worker_id).length ≤ 255)
    (hnone : cursors (pool_id worker_id) = none) :
    (self.fair_start actors worker_id m cursors).1 = .ok 0 := by
  rw [fair_start, hp, if_neg (by simp), if_neg (not_not_intro hbound), hnone]

-- The next call starts behind a place that this one has visited.
theorem next_start (hfirst : self.fair_start actors call.worker_id call.cursor.toNat world.cursors =
      (.ok start, world'.cursors)) {start' : ℕ}
    (hnext : self.is_postgres = false → call'.cursor = ((start + m) % actors.length : ℕ))
    (hpool : self.is_postgres → pool_id call.worker_id = pool_id call'.worker_id)
    (hsecond : self.fair_start actors call'.worker_id call'.cursor.toNat world'.cursors =
      (.ok start', cursors)) (hm : 1 ≤ m) (hmv : m ≤ v) :
    ∃ k, 1 ≤ k ∧ k ≤ v ∧ start' % actors.length = (start + k) % actors.length := by
  cases hp : self.is_postgres with
  | false =>
    rw [fair_start_sqlite hp, hnext hp, Int.toNat_natCast, Prod.mk.injEq, Except.ok.injEq] at hsecond
    refine ⟨m, hm, hmv, ?_⟩
    rw [← hsecond.left, Nat.mod_mod, Nat.mod_mod]
  | true  =>
    have hrow := (fair_start_postgres hp hfirst).left
    rw [hpool hp] at hrow
    have hstart := (fair_start_postgres hp hsecond).right _ hrow rfl
    exact ⟨1, le_rfl, hm.trans hmv, by rw [hstart, Nat.mod_mod, Nat.mod_mod]⟩

-- A sequence of calls goes round the workspaces.
theorem Calls.rotates (h : Calls self actors world calls world')
    (hpool : self.is_postgres → OnePool calls) : ∃ start turns polls,
    Rotates actors.length start turns ∧ turns.length = calls.length ∧
      world'.log = world.log ++ polls ∧ (∀ poll ∈ polls, poll.Honest) ∧
      (∀ turn ∈ turns, ∀ k < turn.2, ∀ actor,
        actors[(turn.1 + k) % actors.length]? = some actor →
          ∃ poll ∈ polls, poll.workspace_id = actor.workspace_id) ∧
      ∀ c ∈ calls.head?, ∃ cursors,
        self.fair_start actors c.worker_id c.cursor.toNat world.cursors = (.ok start, cursors) := by
  induction h with
  | nil => exact ⟨0, [], [], .nil, rfl, (List.append_nil _).symm, by simp, by simp, by simp⟩
  | @cons w w' w'' call result calls next hcall hcursor _ ih =>
    obtain ⟨_, start, v, m, polls, hstart, hlog, hvisits, hm, hmv, rfl⟩ := run_fair_once_spec hcall
    obtain ⟨start', turns, polls', hrotates, hlength, hlog', hhonest, hvisits', hhead⟩ :=
      ih fun hp c hc c' hc' => hpool hp c (.tail _ hc) c' (.tail _ hc')
    have hfirst : ∃ next k, 1 ≤ k ∧ k ≤ v ∧ next % actors.length = (start + k) % actors.length ∧
        Rotates actors.length next turns := by
      cases calls with
      | nil             =>
        obtain rfl := List.length_eq_zero_iff.mp hlength
        exact ⟨start + m, m, hm, hmv, rfl, .nil⟩
      | cons call' rest =>
        obtain ⟨cursors, hstart'⟩ := hhead call' rfl
        obtain ⟨k, hk, hkv, hmod⟩ := next_start hstart (fun hp => hcursor hp call' rfl)
          (fun hp => hpool hp call (.head _) call' (.tail _ <| .head _)) hstart' hm hmv
        exact ⟨start', k, hk, hkv, hmod, hrotates⟩
    obtain ⟨next, k, hk, hkv, hmod, hrotates⟩ := hfirst
    refine ⟨start, (start, v) :: turns, polls ++ polls', .cons hk hkv hmod hrotates, ?_, ?_, ?_, ?_,
      ?_⟩
    · rw [List.length_cons, List.length_cons, hlength]
    · rw [hlog', hlog, List.append_assoc]
    · intro poll hpoll
      exact (List.mem_append.mp hpoll).elim (hvisits.honest poll) (hhonest poll)
    · intro turn hturn k hk actor hactor
      rcases List.mem_cons.mp hturn with rfl | hturn
      · obtain ⟨poll, hpoll, hid⟩ := hvisits.from_offset k (Nat.zero_le _) hk actor hactor
        exact ⟨poll, List.mem_append_left _ hpoll, hid⟩
      · obtain ⟨poll, hpoll, hid⟩ := hvisits' turn hturn k hk actor hactor
        exact ⟨poll, List.mem_append_right _ hpoll, hid⟩
    · rintro c hc
      cases hc
      exact ⟨_, hstart⟩

def waiting : JobRecord where
  job_id                 := "job"
  command                := .obj [("kind", .str "evaluation_run")]
  command_digest         := "digest"
  idempotency_key        := "key"
  status                 := .queued
  attempts               := 0
  max_attempts           := 3
  fence                  := 0
  lease_worker_id        := none
  lease_expires_at       := none
  cancellation_requested := false
  result                 := none
  error                  := none
  command_redaction      := ⟨"1", [], false⟩
  result_redaction       := none
  created_at             := 0
  updated_at             := 0

-- Each workspace always has one job waiting.
def busy : String → State :=
  fun _ => ⟨⟨[waiting], List.nodup_singleton _⟩, []⟩

def enqueued : Turn where
  before _       := busy
  now            := 0
  uuid i         := toString i
  identity       := "host"
  process lease _ := (.ok lease, busy)

theorem lease_time : 0 < 30 :=
  Nat.succ_pos 29

def workers (is_postgres : Bool) : WorkflowService where
  queue       := {
    lease_seconds     := 30
    lease_seconds_pos := lease_time
    fingerprint _     := "digest"
    patterns          := {
      canary _         := none
      provider_token _ := none
      bearer _         := none
      secret _         := none
      sensitive_key _  := false
    }
  }
  is_postgres
  digest _    := "digest"

def started : Installation where
  jobs      := busy
  cursors _ := none
  log       := []

theorem hasWork_busy {workspace_id : String} : HasWork 0 (busy workspace_id) :=
  ⟨waiting, .head _, rfl⟩

-- A workspace that is polled first is served.
theorem poll_from_busy {is_postgres : Bool} {hpos : 0 < actors.length} (hleft : left ≠ 0) :
    ∃ job polled, (workers is_postgres).poll_from actors worker_id (fun _ => enqueued) hpos start
      offset left world = (.ok (some job, (start + offset + 1) % actors.length),
        { world with jobs := busy, log := world.log ++ [⟨polled, 0, busy, some job⟩] }) ∧
      ∀ actor, actors[(start + offset) % actors.length]? = some actor →
        polled = actor.workspace_id := by
  obtain ⟨left, rfl⟩ := Nat.exists_eq_succ_of_ne_zero hleft
  have hlt : (start + offset) % actors.length < actors.length := Nat.mod_lt _ hpos
  have hworker : or_default worker_id ("worker:" ++ enqueued.identity) ≠ "" :=
    or_default_ne_empty identity_ne_empty
  have hclaim : ∃ j, ((workers is_postgres).queue.claim 0 enqueued.uuid
      (busy (actors.get ⟨(start + offset) % actors.length, hlt⟩).workspace_id)
      (or_default worker_id ("worker:" ++ enqueued.identity))).1 = .ok (some j) :=
    claim_of_hasWork hworker hasWork_busy
  obtain ⟨j, hj⟩ := hclaim
  have honce : (workers is_postgres).run_once worker_id
      (actors.get ⟨(start + offset) % actors.length, hlt⟩) enqueued world = (.ok (some j),
        { world with
          jobs := busy
          log  := world.log ++ [⟨(actors.get ⟨(start + offset) % actors.length, hlt⟩).workspace_id,
            0, busy, some j⟩] }) := by
    unfold run_once
    simp only [enqueued] at hj ⊢
    rw [hj]
    rfl
  refine ⟨j, (actors.get ⟨(start + offset) % actors.length, hlt⟩).workspace_id, ?_,
    fun actor hactor => ?_⟩
  case refine_2 =>
    rw [List.getElem?_eq_getElem hlt, Option.some.injEq] at hactor
    exact hactor ▸ rfl
  case refine_1 =>
    rw [poll_from]
    simp only [honce]

-- A call that begins at the first workspace serves it.
theorem run_fair_once_busy {is_postgres : Bool} {actors : List Actor}
    (hstart : ((workers is_postgres).fair_start (actor :: actors) worker_id 0 world.cursors).1 =
      .ok 0) (hids : ∀ a ∈ actor :: actors, a.workspace_id ≠ "") :
    ∃ job cursors, ((workers is_postgres).fair_start (actor :: actors) worker_id 0 world.cursors).2 =
        cursors ∧
      (workers is_postgres).run_fair_once (actor :: actors) worker_id 0 (fun _ => enqueued) world =
        (.ok (some job, 1 % (actors.length + 1)), { world with
          jobs    := busy
          cursors
          log     := world.log ++ [⟨actor.workspace_id, 0, busy, some job⟩] }) := by
  obtain ⟨job, polled, hpoll, hactor⟩ := @poll_from_busy (actor :: actors) worker_id
    { world with
      cursors := ((workers is_postgres).fair_start (actor :: actors) worker_id 0 world.cursors).2 }
    0 0 (actors.length + 1) is_postgres (Nat.succ_pos _) (Nat.succ_ne_zero _)
  have hpolled : polled = actor.workspace_id := by
    refine hactor actor ?_
    rw [Nat.zero_mod]
    rfl
  have hany : (actor :: actors).any (·.workspace_id = "") = false := by
    rw [List.any_eq_false]
    intro a ha
    simpa using hids a ha
  refine ⟨job, _, rfl, ?_⟩
  have hpos : 0 < (actor :: actors).length := Nat.succ_pos _
  unfold run_fair_once
  rw [dif_pos hpos, if_neg (by decide), if_neg (by simpa using hany)]
  simp only [Int.toNat_zero, hstart]
  rw [← hpolled]
  exact hpoll

end WorkflowService

end Jobs
