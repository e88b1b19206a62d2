import Traceline.Jobs.Theorems.Fencing
import Traceline.Jobs.Theorems.Keys
import Traceline.Jobs.Turns

-- When a repeated submission leaves one job and one message.
namespace Jobs

section Persistence

variable {s s' : State} {self : JobQueue} {now : Time} {uuid : ℕ → String} {id w : String}
variable {p : JobRecord → Bool} {f : JobRecord → JobRecord} {j : JobRecord}

-- What no call changes of a job.
def JobRecord.Same (j j' : JobRecord) : Prop :=
  j'.job_id = j.job_id ∧ j'.idempotency_key = j.idempotency_key ∧
  j'.command_digest = j.command_digest

theorem JobRecord.Same.refl : j.Same j :=
  ⟨rfl, rfl, rfl⟩

theorem JobRecord.Same.trans {j' j'' : JobRecord} (h : j.Same j') (h' : j'.Same j'') : j.Same j'' :=
  ⟨h'.left.trans h.left, h'.right.left.trans h.right.left, h'.right.right.trans h.right.right⟩

-- No job is lost.
def State.Persists (s s' : State) : Prop :=
  ∀ j ∈ s.jobs, ∃ j' ∈ s'.jobs, j.Same j'

namespace State.Persists

theorem refl : s.Persists s :=
  fun j hj => ⟨j, hj, .refl⟩

theorem trans {s'' : State} (h : s.Persists s') (h' : s'.Persists s'') : s.Persists s'' := by
  intro j hj
  obtain ⟨j', hj', hsame⟩ := h j hj
  obtain ⟨j'', hj'', hsame'⟩ := h' j' hj'
  exact ⟨j'', hj'', hsame.trans hsame'⟩

theorem of_update {outbox : List OutboxRow} (hf : ∀ j, (f j).job_id = j.job_id)
    (hsame : ∀ j : JobRecord, j.Same (f j)) :
    s.Persists { jobs := s.jobs.update p f hf, outbox } := by
  intro j hj
  refine ⟨_, List.mem_map_of_mem hj, ?_⟩
  split
  case isTrue  => exact hsame j
  case isFalse => exact .refl

theorem of_guarded {outbox : State → State} (hf : ∀ j, (f j).job_id = j.job_id)
    (ho : ∀ s, (outbox s).jobs = s.jobs) (hsame : ∀ j : JobRecord, j.Same (f j)) :
    s.Persists (s.guarded id p f hf outbox).2 := by
  unfold State.guarded
  split
  case isTrue  =>
    intro j hj
    have hupdate : s.Persists
        { jobs := s.jobs.update (fun j => j.job_id = id && p j) f hf, outbox := s.outbox } :=
      of_update hf hsame
    obtain ⟨j', hj', h⟩ := hupdate j hj
    refine ⟨j', ?_, h⟩
    dsimp only
    rw [ho]
    exact hj'
  case isFalse => exact .refl

theorem of_lease : s.Persists (self.lease now uuid s id w).2 := by
  unfold JobQueue.lease
  split
  case isTrue  => exact of_update (fun _ => JobRecord.grant_job_id) fun _ => .refl
  case isFalse => exact .refl

theorem of_expire : s.Persists (s.expire_and_cancel uuid now) :=
  of_update (fun _ => JobRecord.expire_job_id) fun _ => .refl

theorem of_enqueue {command : List (String × Json)} {key : String} {max_attempts : Int} :
    s.Persists (self.enqueue now uuid s command key max_attempts).2 := by
  unfold JobQueue.enqueue
  split
  · exact .refl
  split
  · exact .refl
  split
  · exact .refl
  dsimp only
  split
  · split <;> exact .refl
  split
  case h_1          => exact .refl
  case h_2 jobs hi =>
    intro j hj
    refine ⟨j, ?_, .refl⟩
    change j ∈ jobs.rows
    rw [(Table.insert_eq_some_iff.mp hi).right]
    exact List.mem_append_left _ hj

theorem of_request_cancel : s.Persists (s.request_cancel now uuid id).2 := by
  unfold State.request_cancel
  split
  · exact .refl
  split
  · exact .refl
  refine of_update (fun _ => JobRecord.request_cancel_job_id) fun j => ?_
  unfold JobRecord.request_cancel
  dsimp only
  split <;> exact .refl

theorem of_perform (c : Call) (s : State) : s.Persists (store.perform c s).2 := by
  obtain ⟨self, now, uuid, op⟩ := c
  cases op with
  | get | assert_active             => exact .refl
  | enqueue command key n           => exact of_enqueue
  | request_cancel id               => exact of_request_cancel
  | acknowledge_cancel id fence     => exact of_guarded _ (fun _ => rfl) fun _ => .refl
  | abandon id fence                => exact of_guarded _ (fun _ => rfl) fun _ => .refl
  | heartbeat id fence              => exact of_guarded _ (fun _ => rfl) fun _ => .refl
  | complete id fence result        => exact of_guarded _ (fun _ => rfl) fun _ => .refl
  | fail id fence error             =>
    change s.Persists (self.fail now uuid s id fence error).2
    unfold JobQueue.fail
    split
    case h_1 => exact of_guarded _ (fun _ => rfl) fun _ => .refl
    case h_2 => exact .refl
  | claim w                         =>
    change s.Persists (self.claim now uuid s w).2
    unfold JobQueue.claim
    split
    case isTrue  => exact .refl
    case isFalse =>
      dsimp only
      split
      case h_1 => exact of_expire
      case h_2 => exact of_expire.trans of_lease
  | claim_specific id w             =>
    change s.Persists (self.claim_specific now uuid s id w).2
    unfold JobQueue.claim_specific
    split
    case isTrue  => exact .refl
    case isFalse =>
      split
      case isTrue  => exact .refl
      case isFalse => exact of_expire.trans of_lease

end State.Persists

-- A job is known by its key.
theorem eq_of_key {j' : JobRecord} (h : s.keys.Nodup) (hj : j ∈ s.jobs) (hj' : j' ∈ s.jobs)
    (hk : j.idempotency_key = j'.idempotency_key) : j = j' :=
  List.inj_on_of_nodup_map h hj hj' hk

theorem enqueue_ok {command : List (String × Json)} {key : String} {max_attempts : Int}
    (h : (self.enqueue now uuid s command key max_attempts).1 = .ok j) :
    j.idempotency_key = key ∧ j.command_digest = self.fingerprint (.obj command) ∧
    j ∈ (self.enqueue now uuid s command key max_attempts).2.jobs := by
  revert h
  unfold JobQueue.enqueue
  split
  · exact fun h => by cases h
  split
  · exact fun h => by cases h
  split
  · exact fun h => by cases h
  dsimp only
  split
  case h_1 existing hold =>
    split
    case isTrue  => exact fun h => by cases h
    case isFalse hd =>
      intro h
      cases h
      have hk := List.find?_some hold
      exact ⟨of_decide_eq_true hk, not_not.mp hd, List.mem_of_find?_eq_some hold⟩
  case h_2 =>
    split
    case h_1         => exact fun h => by cases h
    case h_2 jobs hi =>
      dsimp only [State.row, State.emit]
      rw [Table.find_insert hi, if_pos rfl]
      intro h
      cases h
      have hrows := (Table.insert_eq_some_iff.mp hi).right
      refine ⟨rfl, rfl, ?_⟩
      change _ ∈ jobs.rows
      rw [hrows]
      exact List.mem_append_right _ <| .head _

end Persistence

namespace World

section Prints

variable (q : JobQueue) (w : World) (s : Submission)

def command : Option (List (String × Json)) :=
  (w.sessions.find s.session_id).map s.command

-- The digest `enqueue` computes for the call, where its session exists.
def print : Option String :=
  (w.command s).map fun command => q.fingerprint (.obj command)

-- No call that stands has the key and the digest.
def Fresh : Prop :=
  ∀ d ∈ w.print q s, ∀ c ∈ w.calls, c.failed = false →
    c.submission.idempotency_key = s.idempotency_key → w.print q c.submission ≠ some d

instance : Decidable (w.Fresh q s) :=
  inferInstanceAs <| Decidable <| ∀ d ∈ w.print q s, ∀ c ∈ w.calls, c.failed = false →
    c.submission.idempotency_key = s.idempotency_key → w.print q c.submission ≠ some d

-- The job is the one of the call.
structure Bound (job : JobRecord) : Prop where
  key   : job.idempotency_key = s.idempotency_key
  print : w.print q s = some job.command_digest
  held  : ∃ j ∈ w.queue.jobs, job.Same j

-- What a call knows in its phase.
def Sound : Phase → Prop
  | .begun            => True
  | .checked command  => w.command s = some command
  | .found job        => w.Bound q s job
  | .absent command   => w.command s = some command
  | .ended (.ok job)  =>
    w.Bound q s job ∧ ∃ m ∈ w.messages, m.operation_id = some s.idempotency_key
  | .ended (.error _) => True

-- Two calls with one key that are both under way have different digests, and a call that repeats one
-- that stood has none.
structure Distinct (print : Submission → Option String) (calls : List Called) : Prop where
  apart : ∀ (i k : ℕ) (c c' : Called), calls[i]? = some c → calls[k]? = some c' → i ≠ k →
    c.phase.under_way → c'.phase.under_way →
      c.submission.idempotency_key = c'.submission.idempotency_key →
        ∀ d ∈ print c.submission, print c'.submission ≠ some d
  first : ∀ c ∈ calls, ∀ i ∈ c.since, ∀ c' ∈ calls[i]?, c'.submission.Repeats c.submission →
    print c'.submission = none
  since : ∀ c ∈ calls, ∀ i ∈ c.since, i < calls.length

structure Inv : Prop where
  keys     : w.queue.keys.Nodup
  sound    : ∀ c ∈ w.calls, w.Sound q c.submission c.phase
  distinct : Distinct (w.print q) w.calls
  backed   : ∀ m ∈ w.messages, ∃ c job, w.Returned c job ∧
    m.operation_id = some c.submission.idempotency_key ∧ m.job_id = some job.job_id
  once     : (w.messages.rows.map (·.operation_id)).Nodup
  unsent   : ∀ c ∈ w.calls, c.phase.under_way → ∀ m ∈ w.messages,
    m.operation_id = some c.submission.idempotency_key → ∀ j ∈ w.queue.jobs,
      j.idempotency_key = c.submission.idempotency_key →
        w.print q c.submission ≠ some j.command_digest

end Prints

section Frames

variable {q : JobQueue} {w : World} {s s' : Submission} {c c' : Called} {i k : ℕ} {phase : Phase}
variable {calls : List Called}
variable {queue : State} {job : JobRecord}

theorem command_repeats (h : s'.Repeats s) : w.command s' = w.command s := by
  obtain ⟨hid, hkey, hbody⟩ := h
  unfold command Submission.command Submission.message
  rw [hid, hkey, hbody]

theorem command_advance (session_id : String) (revision : Int) :
    command { w with
      sessions := w.sessions.update (·.session_id = session_id) ({ · with revision }) fun _ => rfl }
      s = w.command s := by
  unfold command
  rw [Table.find_update, Option.map_map]
  congr 1
  funext session
  simp only [Function.comp]
  split <;> rfl

theorem print_eq {w' : World} (h : w'.command = w.command) : w'.print q = w.print q := by
  funext s
  rw [print, print, h]

theorem Bound.mono {w' : World} (h : w.Bound q s job) (hcommand : w'.command = w.command)
    (hqueue : w.queue.Persists w'.queue) : w'.Bound q s job where
  key   := h.key
  print := by rw [print_eq hcommand, h.print]
  held  := by
    obtain ⟨j, hj, hsame⟩ := h.held
    obtain ⟨j', hj', hsame'⟩ := hqueue j hj
    exact ⟨j', hj', hsame.trans hsame'⟩

theorem Sound.mono {w' : World} (h : w.Sound q s phase) (hcommand : w'.command = w.command)
    (hqueue : w.queue.Persists w'.queue) (hmessages : ∀ m ∈ w.messages, m ∈ w'.messages) :
    w'.Sound q s phase := by
  match phase with
  | .begun | .ended (.error _) => trivial
  | .checked _ | .absent _     => exact (congrFun hcommand s).trans h
  | .found _                   => exact Bound.mono h hcommand hqueue
  | .ended (.ok _)             =>
    obtain ⟨hb, m, hm, hop⟩ := h
    exact ⟨hb.mono hcommand hqueue, m, hmessages m hm, hop⟩

theorem print_repeats (h : s'.Repeats s) : w.print q s' = w.print q s := by
  rw [print, print, command_repeats h]

theorem not_failed (hu : c.phase.under_way) : c.failed = false := by
  unfold Called.failed
  split
  case h_1 hphase => rw [hphase] at hu; cases hu
  case h_2        => rfl

theorem mem_standing (h : k ∈ w.standing) : ∃ c, w.calls[k]? = some c ∧ c.failed = false := by
  obtain ⟨-, hany⟩ := List.mem_filter.mp h
  match hc : w.calls[k]? with
  | none   => simp [hc] at hany
  | some c => exact ⟨c, rfl, by simpa [hc] using hany⟩

theorem get_set (h : (calls.set i c)[k]? = some c') :
    k = i ∧ c' = c ∨ k ≠ i ∧ calls[k]? = some c' := by
  rw [List.getElem?_set] at h
  split at h
  case isTrue hk  =>
    split at h
    case isTrue  => exact .inl ⟨hk.symm, (Option.some_inj.mp h).symm⟩
    case isFalse => cases h
  case isFalse hk => exact .inr ⟨Ne.symm hk, h⟩

theorem get_snoc (h : (calls ++ [c])[k]? = some c') :
    calls[k]? = some c' ∨ k = calls.length ∧ c' = c := by
  by_cases hk : k < calls.length
  · rw [List.getElem?_append_left hk] at h
    exact .inl h
  · rw [List.getElem?_append_right (not_lt.mp hk)] at h
    obtain ⟨hlt, rfl⟩ := List.getElem?_eq_some_iff.mp h
    simp only [List.length_cons, List.length_nil] at hlt
    exact .inr ⟨by omega, by simp⟩

-- What a call was before.
theorem origin (hc : calls[i]? = some c) (hu : c.phase.under_way)
    (h : (calls.set i { c with phase })[k]? = some c') :
    ∃ c₀, calls[k]? = some c₀ ∧ c₀.submission = c'.submission ∧ c₀.since = c'.since ∧
      (c'.phase.under_way → c₀.phase.under_way) := by
  obtain ⟨rfl, rfl⟩ | ⟨-, h⟩ := get_set h
  case inl => exact ⟨c, hc, rfl, rfl, fun _ => hu⟩
  case inr => exact ⟨c', h, rfl, rfl, id⟩

namespace Distinct

theorem set {print : Submission → Option String} (h : Distinct print calls)
    (hc : calls[i]? = some c) (hu : c.phase.under_way) :
    Distinct print (calls.set i { c with phase }) where
  apart k l c' c'' hk hl hne hu' hu'' hkey := by
    obtain ⟨c₁, h₁, hs₁, -, hu₁⟩ := origin hc hu hk
    obtain ⟨c₂, h₂, hs₂, -, hu₂⟩ := origin hc hu hl
    have := h.apart k l c₁ c₂ h₁ h₂ hne (hu₁ hu') (hu₂ hu'')
    rw [hs₁, hs₂] at this
    exact this hkey
  first c' hc' k hk c'' hc'' hr := by
    obtain ⟨l, hl⟩ := List.mem_iff_getElem?.mp hc'
    obtain ⟨c₁, h₁, hs₁, hn₁, -⟩ := origin hc hu hl
    obtain ⟨c₂, h₂, hs₂, -, -⟩ := origin hc hu hc''
    have := h.first c₁ (List.mem_of_getElem? h₁) k (hn₁ ▸ hk) c₂ h₂
    rw [hs₁, hs₂] at this
    exact this hr
  since c' hc' k hk := by
    obtain ⟨l, hl⟩ := List.mem_iff_getElem?.mp hc'
    obtain ⟨c₁, h₁, -, hn₁, -⟩ := origin hc hu hl
    rw [List.length_set]
    exact h.since c₁ (List.mem_of_getElem? h₁) k (hn₁ ▸ hk)

theorem snoc (h : Distinct (w.print q) w.calls) (hf : w.Fresh q s) :
    Distinct (w.print q) (w.calls ++ [⟨s, .begun, w.standing⟩]) where
  apart k l c c' hc hc' hne hu hu' hkey d hd := by
    obtain hc | ⟨rfl, rfl⟩ := get_snoc hc <;> obtain hc' | ⟨rfl, rfl⟩ := get_snoc hc'
    · exact h.apart k l c c' hc hc' hne hu hu' hkey d hd
    · intro hd'
      exact hf d hd' c (List.mem_of_getElem? hc) (not_failed hu) hkey hd
    · exact hf d hd c' (List.mem_of_getElem? hc') (not_failed hu') hkey.symm
    · exact absurd rfl hne
  first c hc k hk c' hc' hr := by
    obtain hc | hc := List.mem_append.mp hc
    case inl =>
      obtain hc' | ⟨rfl, -⟩ := get_snoc hc'
      case inl => exact h.first c hc k hk c' hc' hr
      case inr => exact absurd (h.since c hc _ hk) (lt_irrefl _)
    case inr =>
      obtain rfl := List.mem_singleton.mp hc
      obtain ⟨c₀, hc₀, hstands⟩ := mem_standing hk
      obtain hc' | ⟨rfl, -⟩ := get_snoc hc'
      case inr => exact absurd (List.getElem?_eq_some_iff.mp hc₀).choose (lt_irrefl _)
      obtain rfl := Option.some_inj.mp (hc₀.symm.trans hc')
      rw [Option.eq_none_iff_forall_ne_some]
      intro d hd
      exact hf d ((print_repeats hr).symm.trans hd) c₀ (List.mem_of_getElem? hc') hstands
        hr.right.left.symm hd
  since c hc k hk := by
    rw [List.length_append]
    obtain hc | hc := List.mem_append.mp hc
    case inl => exact Nat.lt_add_right _ <| h.since c hc k hk
    case inr =>
      obtain rfl := List.mem_singleton.mp hc
      exact Nat.lt_add_right _ <| List.mem_range.mp (List.mem_filter.mp hk).left

end Distinct

theorem Returned.put (h : w.Returned c' job) (hc : w.calls[i]? = some c)
    (hu : c.phase.under_way) : (w.put i c phase).Returned c' job := by
  obtain ⟨k, hk⟩ := List.mem_iff_getElem?.mp h.left
  refine ⟨List.mem_of_getElem? (i := k) ?_, h.right⟩
  have hne : i ≠ k := by
    rintro rfl
    obtain rfl := Option.some_inj.mp (hc.symm.trans hk)
    rw [h.right] at hu
    cases hu
  exact (List.getElem?_set_ne hne).trans hk

namespace Inv

theorem returned (h : w.Inv q) (hc : w.Returned c job) :
    w.Sound q c.submission (.ended (.ok job)) :=
  hc.right ▸ h.sound c hc.left

-- The call that sent a message, and its job.
theorem backing {m : MessageRow} (h : w.Inv q) (hm : m ∈ w.messages) :
    ∃ c ∈ w.calls, ∃ j ∈ w.queue.jobs, c.failed = false ∧
      m.operation_id = some c.submission.idempotency_key ∧ m.job_id = some j.job_id ∧
      j.idempotency_key = c.submission.idempotency_key ∧
      w.print q c.submission = some j.command_digest := by
  obtain ⟨c, job, hc, hop, hid⟩ := h.backed m hm
  obtain ⟨hkey, hprint, j, hj, hid', hkey', hdigest⟩ := (h.returned hc).left
  have hstands : c.failed = false := by
    unfold Called.failed
    rw [hc.right]
  exact ⟨c, hc.left, j, hj, hstands, hop, by rw [hid, hid'], by rw [hkey', hkey],
    by rw [hprint, hdigest]⟩

theorem put (h : w.Inv q) (hc : w.calls[i]? = some c) (hu : c.phase.under_way)
    (hs : w.Sound q c.submission phase) : (w.put i c phase).Inv q where
  keys     := h.keys
  sound c' hc' := by
    refine Sound.mono (w := w) ?_ rfl .refl fun _ => id
    obtain ⟨k, hk⟩ := List.mem_iff_getElem?.mp hc'
    obtain ⟨-, rfl⟩ | ⟨-, hk⟩ := get_set hk
    case inl => exact hs
    case inr => exact h.sound c' <| List.mem_of_getElem? hk
  distinct := h.distinct.set hc hu
  backed m hm := by
    obtain ⟨c', job, hc', hm'⟩ := h.backed m hm
    exact ⟨c', job, hc'.put hc hu, hm'⟩
  once     := h.once
  unsent c' hc' hu' := by
    obtain ⟨k, hk⟩ := List.mem_iff_getElem?.mp hc'
    obtain ⟨c₁, h₁, hs₁, -, hu₁⟩ := origin hc hu hk
    have := h.unsent c₁ (List.mem_of_getElem? h₁) (hu₁ hu')
    rw [hs₁] at this
    exact this

-- What others do to the queue.
theorem of_queue (h : w.Inv q) (hn : queue.keys.Nodup) (hp : w.queue.Persists queue) :
    Inv q { w with queue } where
  keys     := hn
  sound c hc := (h.sound c hc).mono rfl hp fun _ => id
  distinct := h.distinct
  backed   := h.backed
  once     := h.once
  unsent c hc hu m hm hop j hj hkey := by
    obtain ⟨c₀, -, j₀, hj₀, -, hop₀, -, hkey₀, -⟩ := h.backing hm
    have hkeys := Option.some_inj.mp (hop₀.symm.trans hop)
    obtain ⟨j', hj', -, hkey', hd'⟩ := hp j₀ hj₀
    obtain rfl := eq_of_key hn hj' hj (by rw [hkey', hkey₀, hkeys, hkey])
    rw [hd']
    exact h.unsent c hc hu m hm hop j₀ hj₀ (hkey₀.trans hkeys)

theorem advance {session_id : String} {revision : Int} (h : w.Inv q) :
    Inv q { w with
      sessions := w.sessions.update (·.session_id = session_id) ({ · with revision })
        fun _ => rfl } := by
  have hcommand := funext fun s => w.command_advance (s := s) session_id revision
  have hprint := print_eq (q := q) hcommand
  exact {
    keys     := h.keys
    sound    := fun c hc => (h.sound c hc).mono hcommand .refl fun _ => id
    distinct := by
      rw [hprint]
      exact h.distinct
    backed   := h.backed
    once     := h.once
    unsent   := by
      rw [hprint]
      exact h.unsent
  }

theorem begin (h : w.Inv q) (hf : w.Fresh q s) :
    Inv q { w with calls := w.calls ++ [⟨s, .begun, w.standing⟩] } where
  keys     := h.keys
  sound c hc := by
    refine Sound.mono (w := w) ?_ rfl .refl fun _ => id
    obtain hc | hc := List.mem_append.mp hc
    case inl => exact h.sound c hc
    case inr =>
      obtain rfl := List.mem_singleton.mp hc
      trivial
  distinct := h.distinct.snoc hf
  backed m hm := by
    obtain ⟨c, job, hc, hm⟩ := h.backed m hm
    exact ⟨c, job, ⟨List.mem_append_left _ hc.left, hc.right⟩, hm⟩
  once     := h.once
  unsent c hc hu m hm hop j hj hkey := by
    obtain hc | hc := List.mem_append.mp hc
    case inl => exact h.unsent c hc hu m hm hop j hj hkey
    case inr =>
      obtain rfl := List.mem_singleton.mp hc
      obtain ⟨c₀, hc₀, j₀, hj₀, hstands, hop₀, -, hkey₀, hprint⟩ := h.backing hm
      have hkeys := Option.some_inj.mp (hop₀.symm.trans hop)
      obtain rfl := eq_of_key h.keys hj₀ hj (by rw [hkey₀, hkeys, hkey])
      exact fun hd => hf _ hd c₀ hc₀ hstands hkeys hprint

-- The call sends its message and returns.
theorem send {m : MessageRow} {messages : Table MessageRow.message_id} (h : w.Inv q)
    (hc : w.calls[i]? = some c) (hu : c.phase.under_way) (hb : w.Bound q c.submission job)
    (hm : w.messages.insert m = some messages)
    (hop : m.operation_id = some c.submission.idempotency_key) (hid : m.job_id = some job.job_id) :
    (World.put { w with messages } i c (.ended (.ok job))).Inv q := by
  have hrows := (Table.insert_eq_some_iff.mp hm).right
  have hmem (m' : MessageRow) (h : m' ∈ messages) : m' ∈ w.messages ∨ m' = m := by
    rw [Table.mem_rows, hrows] at h
    exact (List.mem_append.mp h).imp_right List.mem_singleton.mp
  have hold (m' : MessageRow) (h : m' ∈ w.messages) : m' ∈ messages := by
    rw [Table.mem_rows, hrows]
    exact List.mem_append_left _ h
  have hin : m ∈ messages := by
    rw [Table.mem_rows, hrows]
    exact List.mem_append_right _ <| .head _
  have hcall := List.mem_of_getElem? hc
  obtain ⟨hkey, hprint, j₀, hj₀, hid₀, hkey₀, hd₀⟩ := hb
  have hnew : m.operation_id ∉ w.messages.rows.map (·.operation_id) := by
    intro hin
    obtain ⟨m', hm', heq⟩ := List.mem_map.mp hin
    refine h.unsent c hcall hu m' hm' (heq.trans hop) j₀ hj₀ (hkey₀.trans hkey) ?_
    rw [hprint, hd₀]
  exact {
    keys     := h.keys
    sound    := by
      intro c' hc'
      refine Sound.mono (w := { w with messages }) ?_ rfl .refl fun _ => id
      obtain ⟨k, hk⟩ := List.mem_iff_getElem?.mp hc'
      obtain ⟨-, rfl⟩ | ⟨-, hk⟩ := get_set hk
      case inl => exact ⟨⟨hkey, hprint, j₀, hj₀, hid₀, hkey₀, hd₀⟩, m, hin, hop⟩
      case inr => exact (h.sound c' <| List.mem_of_getElem? hk).mono rfl .refl hold
    distinct := h.distinct.set hc hu
    backed   := by
      intro m' hm'
      obtain hm' | rfl := hmem m' hm'
      case inl =>
        obtain ⟨c', job', hc', hm'⟩ := h.backed m' hm'
        exact ⟨c', job', Returned.put hc' hc hu, hm'⟩
      case inr =>
        have hlt := (List.getElem?_eq_some_iff.mp hc).choose
        exact ⟨_, job, ⟨List.mem_of_getElem? (List.getElem?_set_self hlt), rfl⟩, hop, hid⟩
    once     := by
      change (messages.rows.map (·.operation_id)).Nodup
      rw [hrows]
      simpa using h.once.concat hnew
    unsent   := by
      intro c' hc' hu' m' hm' hop' j hj hkey'
      obtain ⟨k, hk⟩ := List.mem_iff_getElem?.mp hc'
      obtain ⟨-, rfl⟩ | ⟨hne, hk⟩ := get_set hk
      case inl => exact Bool.noConfusion hu'
      case inr =>
        obtain hm' | rfl := hmem m' hm'
        case inl => exact h.unsent c' (List.mem_of_getElem? hk) hu' m' hm' hop' j hj hkey'
        case inr =>
          have hkeys := Option.some_inj.mp (hop.symm.trans hop')
          obtain rfl := eq_of_key h.keys hj₀ hj (by rw [hkey₀, hkey, hkeys, hkey'])
          refine h.distinct.apart i k c c' hc hk hne.symm hu hu' hkeys _ ?_
          rw [hprint, hd₀]
          rfl
  }

-- The last step of a call, with what `enqueue` has done to the queue.
theorem finish (h : w.Inv q) (hc : w.calls[i]? = some c) (hu : c.phase.under_way)
    (hn : queue.keys.Nodup) (hp : w.queue.Persists queue)
    (hb : Bound q { w with queue } c.submission job) : (w.finish q i c queue job).Inv q := by
  unfold World.finish World.append_message
  split
  case h_1 => exact h.put hc hu trivial
  case h_2 messages hm =>
    split at hm
    case h_1 => cases hm
    split at hm
    case h_1 => cases hm
    case h_2 hm' =>
      obtain rfl := Except.ok.inj hm
      exact (h.of_queue hn hp).send hc hu hb hm' rfl rfl

theorem idempotent (h : w.Inv q) : Idempotent w := by
  have unique (key : String) : (w.messages_of key).length ≤ 1 := by
    let t : Table MessageRow.operation_id := ⟨w.messages.rows, h.once⟩
    have hfind : w.messages_of key = (t.find (some key)).toList := t.filter_key
    rw [hfind]
    cases t.find (some key) with
    | none   => exact Nat.zero_le 1
    | some m => exact le_refl 1
  exact {
    same_job c c' job job' hc hc' hkey := by
      obtain ⟨hk, -, j, hj, hid, hkey₁, -⟩ := (h.returned hc).left
      obtain ⟨hk', -, j', hj', hid', hkey₂, -⟩ := (h.returned hc').left
      obtain rfl := eq_of_key h.keys hj hj' (by rw [hkey₁, hkey₂, hk, hk', hkey])
      exact hid.symm.trans hid'
    one_message c job hc := by
      obtain ⟨m, hm, hop⟩ := (h.returned hc).right
      refine (unique _).antisymm <| List.length_pos_of_mem (a := m) ?_
      exact List.mem_filter.mpr ⟨hm, decide_eq_true hop⟩
    at_most_one := unique
    own_job m hm m' hm' hne hid := by
      obtain ⟨c, -, j, hj, -, hop, hjob, hkey, -⟩ := h.backing hm
      obtain ⟨c', -, j', hj', -, hop', hjob', hkey', -⟩ := h.backing hm'
      have hids : j.job_id = j'.job_id := Option.some_inj.mp (by rw [← hjob, ← hjob', hid])
      obtain rfl := Table.eq_of_key_eq hj hj' hids
      exact hne (by rw [hop, hop', ← hkey, hkey'])
    repeats c hc k hk c' hc' hr job result hphase hresult := by
      have hnone := h.distinct.first c hc k hk c' hc' hr
      have hb := (h.returned ⟨List.mem_of_getElem? hc', hphase⟩).left
      rw [hb.print] at hnone
      cases hnone
  }

theorem commit {w' : World} (h : w.Inv q) (hc : w.calls[i]? = some c)
    (hw : w.commit q i c = some w') : w'.Inv q := by
  have hsound := h.sound c <| List.mem_of_getElem? hc
  unfold World.commit at hw
  split at hw
  case h_1 job hphase     =>
    obtain rfl := Option.some_inj.mp hw
    rw [hphase] at hsound
    exact h.finish hc (by rw [hphase]; rfl) h.keys .refl hsound
  case h_2 command hphase =>
    rw [hphase] at hsound
    split at hw
    case h_1 =>
      obtain rfl := Option.some_inj.mp hw
      exact h.put hc (by rw [hphase]; rfl) trivial
    case h_2 job queue hi =>
      obtain rfl := Option.some_inj.mp hw
      unfold insert_job at hi
      split at hi
      case isTrue  => cases hi
      case isFalse =>
        obtain ⟨hkey, hdigest, hmem⟩ := enqueue_ok (congrArg Prod.fst hi)
        have hn : State.keys (q.enqueue c.submission.now c.submission.uuid w.queue command
            c.submission.idempotency_key 3).2 |>.Nodup :=
          enqueue_keys.left.nodup h.keys
        have hp : w.queue.Persists (q.enqueue c.submission.now c.submission.uuid w.queue command
            c.submission.idempotency_key 3).2 := .of_enqueue
        rw [hi] at hn hp hmem
        refine h.finish hc (by rw [hphase]; rfl) hn hp ⟨hkey, ?_, job, hmem, .refl⟩
        change w.print q c.submission = _
        rw [World.print, hsound, hdigest]
        rfl
  case h_3 => cases hw

theorem check (hc : w.calls[i]? = some c) (hphase : c.phase = .begun) (h : w.Inv q) :
    (w.put i c (w.check c.submission)).Inv q := by
  refine h.put hc (by rw [hphase]; rfl) ?_
  unfold World.check
  split
  case h_1           => trivial
  case h_2 session hs =>
    split
    case isTrue  => trivial
    case isFalse =>
      change w.command c.submission = _
      rw [World.command, hs]
      rfl

theorem look {command : List (String × Json)} (hc : w.calls[i]? = some c)
    (hphase : c.phase = .checked command) (h : w.Inv q) :
    (w.put i c (w.look q c.submission command)).Inv q := by
  have hcommand := h.sound c <| List.mem_of_getElem? hc
  rw [hphase] at hcommand
  refine h.put hc (by rw [hphase]; rfl) ?_
  unfold World.look
  split
  · trivial
  split
  case h_1 existing hold =>
    split
    case isTrue     => trivial
    case isFalse hd =>
      have hkey := List.find?_some hold
      refine ⟨of_decide_eq_true hkey, ?_, existing, List.mem_of_find?_eq_some hold, .refl⟩
      rw [World.print, hcommand, not_not.mp hd]
      rfl
  case h_2 => exact hcommand

end Inv

end Frames

end World

-- Only the begin of a submission is under a condition.
def TurnAct.Meets (q : JobQueue) (w : World) : TurnAct → Prop
  | .begin s => w.Fresh q s
  | _        => True

instance {q : JobQueue} {w : World} {act : TurnAct} : Decidable (act.Meets q w) :=
  match act with
  | .begin s => inferInstanceAs (Decidable (w.Fresh q s))
  | .check _ | .look _ | .commit _ | .abort _ | .serve _ | .advance _ _ => .isTrue trivial

-- Calls of `submit_turn` in any interleaving, with what others do to the queue and the sessions.
def turns (q : JobQueue) : Machine World TurnAct where
  init w        := w.calls = [] ∧ w.messages.rows = [] ∧ w.queue.keys.Nodup
  step w act w' := w.step q act = some w'

-- The runs whose submissions meet the condition.
def careful (q : JobQueue) : Machine World TurnAct where
  init          := (turns q).init
  step w act w' := act.Meets q w ∧ (turns q).step w act w'

section Runs

variable {q : JobQueue} {w w' w₀ : World} {act : TurnAct} {h : List TurnAct}

theorem World.Inv.init (h : (turns q).init w) : w.Inv q := by
  obtain ⟨hcalls, hrows, hkeys⟩ := h
  have hcall (c : Called) : c ∉ w.calls := by simp [hcalls]
  have hmessage (m : MessageRow) : m ∉ w.messages := by simp [Table.mem_rows, hrows]
  exact {
    keys     := hkeys
    sound    := fun c hc => absurd hc (hcall c)
    distinct := {
      apart := fun i k c c' hc => absurd (List.mem_of_getElem? hc) (hcall c)
      first := fun c hc => absurd hc (hcall c)
      since := fun c hc => absurd hc (hcall c)
    }
    backed   := fun m hm => absurd hm (hmessage m)
    once     := by simp [hrows]
    unsent   := fun c hc => absurd hc (hcall c)
  }

theorem World.Inv.step (h : w.Inv q) (e : (careful q).step w act w') : w'.Inv q := by
  obtain ⟨hmeets, e⟩ := e
  change w.step q act = some w' at e
  cases act with
  | begin s            =>
    obtain rfl := Option.some_inj.mp e
    exact h.begin hmeets
  | check i            =>
    obtain ⟨c, hc, e⟩ := Option.bind_eq_some_iff.mp e
    split at e
    case h_1 hphase =>
      obtain rfl := Option.some_inj.mp e
      exact h.check hc hphase
    case h_2 => cases e
  | look i             =>
    obtain ⟨c, hc, e⟩ := Option.bind_eq_some_iff.mp e
    split at e
    case h_1 hphase =>
      obtain rfl := Option.some_inj.mp e
      exact h.look hc hphase
    case h_2 => cases e
  | commit i           =>
    obtain ⟨c, hc, e⟩ := Option.bind_eq_some_iff.mp e
    exact h.commit hc e
  | abort i            =>
    obtain ⟨c, hc, e⟩ := Option.bind_eq_some_iff.mp e
    split at e
    case isTrue hu =>
      obtain rfl := Option.some_inj.mp e
      exact h.put hc hu trivial
    case isFalse   => cases e
  | serve c            =>
    obtain rfl := Option.some_inj.mp e
    exact h.of_queue ((perform_keys c w.queue).nodup h.keys) (.of_perform c w.queue)
  | advance id revision =>
    obtain rfl := Option.some_inj.mp e
    exact h.advance

theorem submissions_idempotent (hi : (turns q).init w₀) (r : (careful q).Run w₀ h w) :
    Idempotent w :=
  (r.preserves (fun _ _ _ h => h.step) (World.Inv.init hi)).idempotent

end Runs

namespace Sample

def session : SessionRow where
  session_id    := "session"
  evaluation_id := "evaluation"
  revision      := 4

def world : World where
  sessions := ⟨[session], List.nodup_singleton _⟩
  queue    := .empty
  messages := .empty
  calls    := []

def submission (now : Time) : Submission where
  session_id      := "session"
  body            := ⟨4, some "Which runs failed?", .null⟩
  idempotency_key := "turn"
  now
  uuid i          := toString now ++ "-" ++ toString i

def turn (i : ℕ) (now : Time) : List TurnAct :=
  [.begin (submission now), .check i, .look i, .commit i]

-- How many messages the key has after some steps, each of which a guard lets pass.
def sent (guard : World → TurnAct → Bool) (acts : List TurnAct) : Option ℕ :=
  acts.foldlM (fun w act => if guard w act then w.step queue act else none) world
    |>.map fun w => (w.messages_of "turn").length

theorem world_init : (turns queue).init world :=
  ⟨rfl, rfl, List.nodup_nil⟩

-- The first attempt is rolled back before its COMMIT, and is sent again.
def retried : List TurnAct :=
  [.begin (submission 1), .check 0, .look 0, .abort 0] ++ turn 1 2

theorem submissions_idempotent_retried : ∃ w, (careful queue).Run world retried w ∧
    Idempotent w ∧ (w.messages_of "turn").length = 1 := by
  have hsent : sent (fun w act => act.Meets queue w) retried = some 1 := by decide +kernel
  obtain ⟨w, hw, hone⟩ := Option.map_eq_some_iff.mp hsent
  have r : (careful queue).Run world retried w := by
    refine .of_foldlM hw fun act _ s t hs => ?_
    split at hs
    case isTrue hmeets => exact ⟨of_decide_eq_true hmeets, hs⟩
    case isFalse       => cases hs
  exact ⟨w, r, submissions_idempotent world_init r, hone⟩

-- Sent twice at one revision, the request leaves two messages.
theorem not_idempotent : ¬∀ q w₀ h w, (turns q).init w₀ → (turns q).Run w₀ h w → Idempotent w := by
  intro hall
  have hsent : sent (fun _ _ => true) (turn 0 1 ++ turn 1 2) = some 2 := by decide +kernel
  obtain ⟨w, hw, htwo⟩ := Option.map_eq_some_iff.mp hsent
  have r : (turns queue).Run world (turn 0 1 ++ turn 1 2) w := .of_foldlM hw fun _ _ _ _ hs => hs
  have hone := (hall queue world _ w world_init r).at_most_one "turn"
  rw [htwo] at hone
  exact absurd hone (by decide)

end Sample

end Jobs
