import Traceline.Artifacts.Theorems.Publication

open Prog (Crew Abides Pool)

namespace Artifacts

open Streaming (Bytes)
open Versions (Actor Request)

section Crew

variable (sha256 : Bytes → String) (digest : List (String × Json) → String)

inductive Call
  | put (actor : Actor) (workspace_id : String) (data : Bytes) (media_type : String)
  | create (r : Request)
  | delete_unreferenced (actor : Actor) (workspace_id artifact_id : String)
  | recover (actor : Actor) (workspace_id : String)

def Call.prog {ι : Type} (i : ι) : Call → Prog (sig ι) Unit
  | .put actor workspace_id data media_type                => do
    let _ ← ArtifactStore.put sha256 i actor workspace_id data media_type
    return ()
  | .create r                                              => do
    let _ ← Artifacts.create digest i r
    return ()
  | .delete_unreferenced actor workspace_id artifact_id    => do
    let _ ← ArtifactStore.delete_unreferenced i actor workspace_id artifact_id
    return ()
  | .recover actor workspace_id                            => do
    let _ ← ArtifactStore.recover sha256 i actor workspace_id
    return ()

-- One transaction is open at a time, and an id comes out once.
def ready {ι : Type} : Statement ι → State ι → Prop
  | .begin _,   s => s.tx = none
  | .uuid4 _ a, s => hex32 a ∧ ∀ j, (j, a) ∉ s.drawn
  | _,          _ => True

-- A process that dies takes its transaction with it.
def State.abandon {ι : Type} [DecidableEq ι] (i : ι) (s : State ι) : State ι :=
  if s.owner = some i then { s with tx := none } else s

abbrev crew (ι : Type) [DecidableEq ι] : Crew ι (store ι) Unit where
  allow _ _    := True
  ready
  programs i p := ∃ c : Call, p = c.prog sha256 digest i
  init s       := s.db.rows.rows = [] ∧ s.db.tables.references.rows = [] ∧ s.tx = none ∧
    s.drawn = [] ∧ s.deleted = []
  abandon      := State.abandon
  drift s t    := ∃ clock, t = { s with clock }
  idle         := .pure ()

end Crew

section Contract

variable {ι : Type} [DecidableEq ι] {sha256 : Bytes → String}
variable {digest : List (String × Json) → String}

theorem sound : (crew sha256 digest ι).Sound (Invariant sha256) Rely fun i s => s.owner ≠ some i where
  refl _ _             := .refl
  trans _ _ _ _ h h'   := h.trans h'
  init s hs            := by
    obtain ⟨hrows, hrefs, htx, hdrawn, hdeleted⟩ := hs
    refine ⟨?_, fun i => by simp [State.owner, htx]⟩
    have hnone : ∀ row, row ∉ s.db.rows := by simp [Table.mem_rows, hrows]
    exact {
      linked r hr    := by simp [Table.mem_rows, hrefs] at hr
      stored row hr  := absurd hr <| hnone row
      hex d hd       := by simp [hdrawn] at hd
      unique i j a h := by simp [hdrawn] at h
      drawn row hr   := absurd hr <| hnone row
      retired id hi  := by simp [hdeleted] at hi
    }
  stable _ _ _ h hf    := h.free hf
  die i s hs           := by
    change Invariant _ (s.abandon i) ∧ (s.abandon i).owner ≠ _ ∧ ∀ j, j ≠ i → Rely j s (s.abandon i)
    unfold State.abandon
    split
    case isTrue h  =>
      have hm : Moves sha256 i s { s with tx := none } :=
        .tx hs (.inr h) fun _ h => by cases h
      exact ⟨hm.left, by simp [State.owner], hm.right⟩
    case isFalse h => exact ⟨hs, h, fun _ _ => .refl⟩
  drift s t hs h       := by
    obtain ⟨clock, rfl⟩ := h
    exact ⟨Moves.intact_of_files hs rfl rfl rfl fun _ _ => rfl, fun i => {
      held _       := ⟨rfl, rfl⟩
      free h       := h
      pending _ h  := h.of_rows rfl (fun _ h => h) rfl
      file _ _ _ _ := rfl
      stage _ _ _  := .inl rfl
      deleted _ h  := h
    }⟩
  idle                 := trivial

-- How a thread keeps to itself what it has in hand.
abbrev Kept (sha256 : Bytes → String) (digest : List (String × Json) → String) (i : ι) {α : Type}
    (p : Prog (sig ι) α) (E : State ι → Prop) (Q : α → State ι → Prop) (s : State ι) : Prop :=
  p.Abides ((crew sha256 digest ι).contract sound i) (fun _ => E) Q s

variable {α : Type} {i : ι} {s t : State ι} {E : State ι → Prop}

theorem kept_execute {d : Statement ι} {Q : (sig ι).Reply d → State ι → Prop}
    (hq : ∀ r, Stable i (Q r)) (he : Stable i E)
    (hfail : ∀ t, Rely i s t → E t)
    (h : ∀ t, Rely i s t → Invariant sha256 t → ready d t →
      ∃ r u, (store ι).perform d t = (r, u) ∧ Moves sha256 i t u ∧
        Prog.Replied (Q · u) (fun _ => E u) r) :
    Kept sha256 digest i (execute d) E Q s := by
  intro failure _
  cases failure with
  | some e => exact fun t ht _ => hfail t ht
  | none   =>
    refine Abides.perform_of_stable hq (fun _ => he) fun t ht hi hd => ?_
    obtain ⟨r, u, hp, hm, hr⟩ := h t ht hi hd
    rw [hp]
    exact ⟨hm, hr⟩

-- A statement that only reads.
theorem kept_read {d : Statement ι} {P : State ι → Prop} (hp : Stable i P)
    (hread : ∀ t : State ι, ((store ι).perform d t).2 = t) (hs : P s) :
    Kept sha256 digest i (execute d) P
      (fun r t => P t ∧ ∃ u, P u ∧ Rely i u t ∧ ((store ι).perform d u).1 = .ok r) s := by
  refine kept_execute (fun r u v huv ⟨hu, w, hw, hwu, hr⟩ => ?_) hp (fun t ht => hp _ _ ht hs)
    fun t ht hi _ => ?_
  · exact ⟨hp _ _ huv hu, w, hw, hwu.trans huv, hr⟩
  · have hpt := hp _ _ ht hs
    rcases hr : (store ι).perform d t with ⟨r, u⟩
    obtain rfl : u = t := (congrArg Prod.snd hr).symm.trans <| hread t
    refine ⟨r, u, rfl, .refl hi, ?_⟩
    cases r with
    | ok r    => exact ⟨hpt, u, hpt, .refl, congrArg Prod.fst hr⟩
    | error e => exact hpt

-- The connection is free for the thread, which holds it from then on.
theorem kept_begin {P : State ι → Prop} (hp : Stable i P) (htx : ∀ t tx, P t → P { t with tx })
    (hs : s.owner ≠ some i ∧ P s) :
    Kept sha256 digest i (execute (.begin i)) (fun t => t.owner ≠ some i ∧ P t)
      (fun _ t => Holds i t ∧ P t) s := by
  refine kept_execute (fun _ => Holds.stable.and hp) (stable_free.and hp)
    (fun t ht => (stable_free.and hp) s t ht hs) fun t ht hi hd => ?_
  refine ⟨_, _, rfl, .tx hi (.inl ?_) fun x hx => ?_, rfl, htx _ _ <| hp s t ht hs.right⟩
  · change t.tx.map _ = none
    rw [show t.tx = none from hd]
    rfl
  · obtain rfl := Option.some.inj hx
    rfl

theorem kept_commit {P R : State ι → Prop} (hp : Stable i P) (hr : Stable i R)
    (hpr : ∀ t, Invariant sha256 t → P t → R t.commit) (hs : Prepared sha256 i s ∧ P s) :
    Kept sha256 digest i (execute .commit) (fun t => t.owner = some i ∧ P t)
      (fun _ t => t.owner ≠ some i ∧ R t) s := by
  have hpp : Stable i fun t => Prepared sha256 i t ∧ P t := Prepared.stable.and hp
  refine kept_execute (fun _ => stable_free.and hr) (stable_owned.and hp) (fun t ht => ?_)
    fun t ht hi _ => ?_
  · obtain ⟨⟨d, htx, -⟩, ht⟩ := hpp s t ht hs
    exact ⟨owner_of_tx htx, ht⟩
  · obtain ⟨⟨d, htx, hc⟩, ht⟩ := hpp s t ht hs
    refine ⟨_, _, rfl, .commit hi htx hc, ?_, hpr t hi ht⟩
    simp [State.commit, htx, State.owner]

-- The transaction is taken back.
theorem kept_rollback {P E : State ι → Prop} (hp : Stable i P) (htx : ∀ t tx, P t → P { t with tx })
    (hs : s.owner = some i ∧ P s) :
    Kept sha256 digest i (perform .rollback) E (fun _ t => t.owner ≠ some i ∧ P t) s := by
  have h : Kept sha256 digest i (perform .rollback) (fun _ => False)
      (fun _ t => t.owner ≠ some i ∧ P t) s :=
    Abides.perform_of_stable (fun _ => stable_free.and hp) (fun _ _ _ _ h => h) fun t ht hi _ =>
      have hm : Moves sha256 i t { t with tx := none } :=
        .tx hi (.inr <| ht.owner hs.left) nofun
      ⟨hm, by simp [State.owner], htx t none <| hp _ _ ht hs.right⟩
  exact h.mono (fun _ _ _ => id) fun _ _ _ => False.elim

-- A transaction gives up the connection, whether it ends or raises.
theorem kept_workspace_transaction {body : Prog (sig ι) α} {P R : α → State ι → Prop}
    (hp : ∀ a, Stable i (P a)) (hr : ∀ a, Stable i (R a))
    (hpr : ∀ a t, Invariant sha256 t → P a t → R a t.commit)
    (hbody : ∀ t, Invariant sha256 t → Holds i t →
      Kept sha256 digest i body (fun t => t.owner = some i)
        (fun a t => Prepared sha256 i t ∧ P a t) t)
    (hs : s.owner ≠ some i) (hi : Invariant sha256 s) :
    Kept sha256 digest i (workspace_transaction i body) (fun t => t.owner ≠ some i)
      (fun a t => t.owner ≠ some i ∧ R a t) s := by
  have htrue : Stable i fun _ => True := fun _ _ _ _ => trivial
  refine Abides.seq hi ((kept_begin htrue (fun _ _ _ => trivial) ⟨hs, trivial⟩).mono
    (fun _ _ _ => id) fun _ _ _ => And.left) fun _ t hi ht => ?_
  refine Abides.attempt (F := fun _ (t : State ι) => t.owner = some i) hi ?_ fun e u hi hu => ?_
  · refine Abides.seq hi (hbody t hi ht.left) fun a u hi hu => ?_
    refine Abides.seq hi ((kept_commit (hp a) (hr a) (hpr a) hu).mono
      (fun _ _ _ => id) fun _ _ _ => And.left) fun _ v hi hv => ?_
    exact .pure fun w hw _ => (stable_free.and (hr a)) v w hw hv
  · refine Abides.seq hi (kept_rollback htrue (fun _ _ _ => trivial) ⟨hu, trivial⟩)
      fun _ v hi hv => ?_
    exact .throw fun w hw _ => stable_free v w hw hv.left

end Contract

section Put

variable {ι : Type} [DecidableEq ι] {sha256 : Bytes → String}
variable {digest : List (String × Json) → String} {i : ι} {s : State ι}
variable {record : ArtifactRecord} {data : Bytes} {path : Path}

theorem kept_publish (hp : Stage path) (hc : record.checksum = sha256 data)
    (hz : record.size_bytes = data.length) (hs : Publishing i record.artifact_id s)
    (hi : Invariant sha256 s) :
    Kept sha256 digest i (ArtifactStore.publish sha256 record data path)
      (Failing i record.artifact_id)
      (fun _ t => Prepared sha256 i t ∧ Pending i record.artifact_id t) s := by
  have hstable : Stable i (Staging i record.artifact_id path data) := Staging.stable hp
  have hstored : Stable i fun t => Publishing i record.artifact_id t ∧ Stored sha256 t record :=
    fun t u hr h => ⟨Publishing.stable t u hr h.left,
      stored_of_rely h.left.owner h.left.right hr h.right⟩
  have hfail : ∀ t, Publishing i record.artifact_id t → ∀ u, Rely i t u →
      Failing i record.artifact_id u :=
    fun t ht u hu => (Publishing.stable t u hu ht).failing
  -- write
  refine Abides.seq hi (P := fun _ => Staging i record.artifact_id path data)
    (kept_execute (fun _ => hstable) Failing.stable (hfail s hs) fun t ht hi _ => ?_)
    fun _ t hi ht => ?_
  · have ht := Publishing.stable s t ht hs
    refine ⟨_, _, rfl, .write hi ht.owner hp,
      ⟨ht.left, ht.right.of_rows rfl (fun _ h => h) rfl⟩, .inl ?_⟩
    exact State.read_write.trans <| if_pos rfl
  -- read
  refine Abides.seq hi (P := fun written u => Staging i record.artifact_id path data u ∧
      written = data)
    (kept_execute (fun _ => hstable.and fun _ _ _ h => h) Failing.stable (hfail t ht.left)
      fun u hu hi _ => ?_) fun written u hi hu => ?_
  · have hu := hstable t u hu ht
    refine ⟨_, u, State.perform_read_bytes, .refl hi, ?_⟩
    rcases hu.right with h | h <;> rw [h]
    · exact ⟨hu, rfl⟩
    · exact hu.left.failing
  obtain ⟨hu, rfl⟩ := hu
  -- the checksum
  refine Abides.seq hi (P := fun _ => Staging i record.artifact_id path written)
    (.ofExcept (fun _ _ v hv _ => hstable u v hv hu) fun _ _ v hv _ => hfail u hu.left v hv)
    fun _ v hi hv => ?_
  -- rename
  refine Abides.seq hi
    (P := fun _ t => Publishing i record.artifact_id t ∧ Stored sha256 t record)
    (kept_execute (fun _ => hstored) Failing.stable (hfail v hv.left) fun w hw hi _ => ?_)
    fun _ w hi hw => ?_
  · have hw := hstable v w hw hv
    cases h : w.replace path (final record.id) with
    | mk r x =>
      refine ⟨r, x, h, ?_⟩
      cases r with
      | error e =>
        obtain rfl := State.replace_error h
        exact ⟨.refl hi, hw.left.failing⟩
      | ok _    =>
        obtain ⟨hm, htx, hdb, hpend, hread⟩ := Moves.replace hi hw.left.owner hp hw.left.right h
        have hholds : Holds i x := by
          rw [Holds, htx, hdb]
          exact hw.left.left
        obtain ⟨written', hwritten, -⟩ := State.read_replace h
        have hsame : written' = written := by
          rcases hw.right with hr | hr <;> rw [hr] at hwritten
          · exact (Option.some.inj hwritten).symm
          · cases hwritten
        refine ⟨hm, ⟨hholds, hpend⟩, written, ?_, hc.symm, hz.symm⟩
        exact hread.trans <| hwritten.trans <| congrArg some hsame
  -- insert
  refine kept_execute (fun _ => Prepared.stable.and stable_pending) Failing.stable
    (hfail w hw.left) fun x hx hi _ => ?_
  obtain ⟨hx, hf⟩ := hstored w x hx hw
  refine ⟨_, _, State.perform_insert_artifact hx.left, .within hi hx.left, ?_⟩
  cases h : x.db.insert_artifact record with
  | none   => exact ⟨rfl, hx.right.of_rows rfl (fun _ h => h) rfl⟩
  | some d =>
    have hd := Moves.committable_insert hi h hx.right hf
    have hpend : ∀ a, Pending i a x → Pending i a { x with tx := some ⟨i, d⟩ } :=
      fun a h => h.of_rows rfl (fun _ h => h) rfl
    refine ⟨⟨d, rfl, hd.linked, fun row hrow => ?_⟩, hpend _ hx.right⟩
    rcases hd.rows row hrow with h | ⟨hp, hf⟩
    · exact .inl h
    · exact .inr ⟨hpend _ hp, hf⟩

-- What `put` knows where its block ends: an exception leaves nothing but the files it names.
def Staged (sha256 : Bytes → String) (i : ι) (a : String) (staged : ArtifactStore.Staged)
    (s : State ι) : Prop :=
  (∀ path ∈ staged.1, Stage path) ∧
    match staged.2 with
    | .ok _    => Prepared sha256 i s ∧ Pending i a s
    | .error _ => Failing i a s

omit [DecidableEq ι] in
theorem Staged.stable {a : String} {staged : ArtifactStore.Staged} :
    Stable i (Staged sha256 i a staged) := by
  intro s t hr ⟨hp, hs⟩
  refine ⟨hp, ?_⟩
  split at hs
  case h_1 h => exact (Prepared.stable.and stable_pending) s t hr hs
  case h_2 h => exact Failing.stable s t hr hs

theorem kept_stage (hc : record.checksum = sha256 data) (hz : record.size_bytes = data.length)
    (hs : Publishing i record.artifact_id s) (hi : Invariant sha256 s) :
    Kept sha256 digest i (ArtifactStore.stage sha256 record data) (fun _ => False)
      (Staged sha256 i record.artifact_id) s := by
  refine Abides.attempt (F := fun _ => Failing i record.artifact_id) hi ?_ fun e t hi ht =>
    .pure fun u hu _ => ⟨nofun, Failing.stable t u hu ht⟩
  refine Abides.seq hi (.query fun _ _ t ht _ => Publishing.stable s t ht hs) fun name t hi ht => ?_
  refine Abides.seq hi (P := fun _ => Publishing i record.artifact_id)
    (kept_execute (fun _ => Publishing.stable) Failing.stable
      (fun u hu => (Publishing.stable t u hu ht).failing) fun u hu hi _ => ?_) fun _ u hi hu => ?_
  · have hu := Publishing.stable t u hu ht
    dsimp only [store]
    split
    · exact ⟨_, _, rfl, .refl hi, hu.failing⟩
    · exact ⟨_, _, rfl, .write hi hu.owner ⟨name, rfl⟩, hu.left,
        hu.right.of_rows rfl (fun _ h => h) rfl⟩
  · have hp : Stage ⟨.artifacts, record.workspace_id, name ++ ".stage"⟩ := ⟨name, rfl⟩
    have hpath : ∀ path ∈ some (⟨.artifacts, record.workspace_id, name ++ ".stage"⟩ : Path),
        Stage path := fun path h => Option.some.inj h ▸ hp
    refine Abides.attempt (F := fun _ => Failing i record.artifact_id) hi ?_ fun e v hi hv =>
      .pure fun w hw _ => ⟨hpath, Failing.stable v w hw hv⟩
    refine Abides.seq hi (kept_publish hp hc hz hu hi) fun _ v hi hv => .pure fun w hw _ => ?_
    exact ⟨hpath, (Prepared.stable.and stable_pending) v w hw hv⟩

-- What is left for `put` to do once its transaction ended.
def Settled (i : ι) (a : String) (staged : ArtifactStore.Staged) (s : State ι) : Prop :=
  s.owner ≠ some i ∧ (∀ path ∈ staged.1, Stage path) ∧
    ∀ e, staged.2 = .error e → Pending i a s

omit [DecidableEq ι] in
theorem Settled.stable {a : String} {staged : ArtifactStore.Staged} :
    Stable i (Settled i a staged) :=
  fun _ _ hr ⟨ho, hp, hs⟩ => ⟨hr.free ho, hp, fun e h => hr.pending _ <| hs e h⟩

omit [DecidableEq ι] in
theorem pending_tx {a : String} (t : State ι) (tx : Option (Tx ι)) (h : Pending i a t) :
    Pending i a { t with tx } :=
  h.of_rows rfl (fun _ h => h) rfl

theorem kept_transaction (hc : record.checksum = sha256 data)
    (hz : record.size_bytes = data.length) (ho : s.owner ≠ some i)
    (hs : Pending i record.artifact_id s) (hi : Invariant sha256 s) :
    Kept sha256 digest i (ArtifactStore.transaction sha256 i record data) (fun _ => False)
      (Settled i record.artifact_id) s := by
  let a := record.artifact_id
  refine Abides.attempt (F := fun _ (t : State ι) => t.owner ≠ some i ∧ Pending i a t) hi ?_ fun e t hi ht =>
    .pure fun u hu _ =>
      have hu := (stable_free.and stable_pending) t u hu ht
      ⟨hu.left, nofun, fun _ _ => hu.right⟩
  refine Abides.seq hi (kept_begin stable_pending pending_tx ⟨ho, hs⟩) fun _ t hi ht => ?_
  refine Abides.seq hi ((kept_stage hc hz ht hi).mono (fun _ _ _ => id) fun _ _ _ => False.elim)
    fun staged u hi hu => ?_
  obtain ⟨stage, result⟩ := staged
  obtain ⟨hstage, hu⟩ := hu
  -- An exception takes the transaction back.
  have hraise : ∀ e v, Invariant sha256 v → Failing i a v →
      Kept sha256 digest i (do perform .rollback; return (stage, .error e))
        (fun t => t.owner ≠ some i ∧ Pending i a t) (Settled i a) v := fun e v hi hv =>
    Abides.seq hi (kept_rollback stable_pending pending_tx hv) fun _ w hi hw =>
      .pure fun x hx _ =>
        have hx := (stable_free.and stable_pending) w x hx hw
        ⟨hx.left, hstage, fun _ _ => hx.right⟩
  cases result with
  | error e => exact hraise e u hi hu
  | ok _    =>
    refine Abides.attempt (F := fun _ => Failing i a) hi ?_ fun e v hi hv => hraise e v hi hv
    have htrue : Stable i fun _ => True := fun _ _ _ _ => trivial
    refine Abides.seq hi (kept_commit stable_pending htrue (fun _ _ _ => trivial) hu)
      fun _ v hi hv => .pure fun w hw _ => ⟨stable_free v w hw hv.left, hstage, nofun⟩

theorem kept_check (x : Except Error α) (hs : s.owner ≠ some i) :
    Kept sha256 digest i (Prog.ofExcept x) (fun t => t.owner ≠ some i)
      (fun _ t => t.owner ≠ some i) s :=
  .ofExcept (fun _ _ t ht _ => ht.free hs) fun _ _ t ht _ => ht.free hs

theorem kept_uuid4 (hs : s.owner ≠ some i) :
    Kept sha256 digest i (uuid4 i) (fun t => t.owner ≠ some i)
      (fun a t => t.owner ≠ some i ∧ Pending i a t) s := by
  intro a _ t ht hi hd
  obtain ⟨hh, hf⟩ : hex32 a ∧ ∀ j, (j, a) ∉ t.drawn := hd
  have hfree : t.owner ≠ some i := Rely.free ht hs
  refine ⟨Moves.uuid4 hi hh hf, fun u hu _ => ?_⟩
  refine (stable_free.and stable_pending) _ u hu ⟨hfree, ?_⟩
  exact {
    drawn          := List.mem_append_right _ <| .head _
    no_row row h e := by
      obtain ⟨j, hj⟩ := hi.drawn row h
      exact hf j (e ▸ hj)
    deleted id h e := by
      obtain ⟨⟨j, hj⟩, -⟩ := hi.retired id h
      exact hf j (e ▸ hj)
  }

-- A file that no row names is removed, or is already gone.
theorem kept_unlink {P : State ι → Prop} {missing_ok : Bool} (hp : Stable i P)
    (hfiles : ∀ t f, P t → P { t with files := f }) (hs : P s)
    (hrows : ∀ t, Invariant sha256 t → P t → ∀ row ∈ t.db.rows, final row.id ≠ path)
    (hown : ∀ t, Invariant sha256 t → P t → t.owner = some i ∨
      ∀ j, j ≠ i → ∀ w a, Pending j a t → final (w, a) ≠ path) :
    Kept sha256 digest i (execute (.unlink path missing_ok)) P (fun _ => P) s := by
  refine kept_execute (fun _ => hp) hp (fun t ht => hp s t ht hs) fun t ht hi _ => ?_
  have ht := hp s t ht hs
  dsimp only [store]
  split
  case isTrue  => exact ⟨_, _, rfl, .refl hi, ht⟩
  case isFalse =>
    exact ⟨_, _, rfl, .unlink hi (hrows t hi ht) (hown t hi ht), hfiles t _ ht⟩

-- The handler of `put`.
theorem kept_discard {a w : String} {stage : Option Path} (hstage : ∀ path ∈ stage, Stage path)
    (hs : s.owner ≠ some i ∧ Pending i a s) (hi : Invariant sha256 s) (e : Error) :
    Kept sha256 digest i (do
        ArtifactStore.discard stage
        execute (.unlink (final (w, a)) true)
        throw e : Prog (sig ι) ArtifactRecord) (fun t => t.owner ≠ some i)
      (fun _ t => t.owner ≠ some i) s := by
  let P (t : State ι) : Prop := t.owner ≠ some i ∧ Pending i a t
  have hp : Stable i P := stable_free.and stable_pending
  have hfiles : ∀ t f, P t → P { t with files := f } :=
    fun t f ht => ⟨ht.left, ht.right.of_rows rfl (fun _ h => h) rfl⟩
  have hdiscard : Kept sha256 digest i (ArtifactStore.discard stage) P (fun _ => P) s := by
    cases stage with
    | none      => exact .pure fun t ht _ => hp s t ht hs
    | some path =>
      have hpath := hstage path rfl
      exact kept_unlink hp hfiles hs (fun t hi _ row hr => final_ne_stage hi hr hpath)
        fun t hi _ => .inr fun j _ w a h => pending_ne_stage hi h hpath
  refine Abides.seq hi (hdiscard.mono (fun _ _ _ => id) fun _ _ _ => And.left) fun _ t hi ht => ?_
  have hfinal : Kept sha256 digest i (execute (.unlink (final (w, a)) true)) P (fun _ => P) t := by
    refine kept_unlink hp hfiles ht (fun t _ ht row hr => ht.right.ne_final hr)
      fun t hi ht => .inr fun j hj w' b h he => hj ?_
    have hb : b = a := congrArg Path.name he
    exact hi.unique _ _ _ (hb ▸ h.drawn) ht.right.drawn
  refine Abides.seq hi (hfinal.mono (fun _ _ _ => id) fun _ _ _ => And.left) fun _ u hi hu => ?_
  exact .throw fun v hv _ => hv.free hu.left

theorem kept_put {actor : Actor} {workspace_id media_type : String} (hs : s.owner ≠ some i)
    (hi : Invariant sha256 s) :
    Kept sha256 digest i (ArtifactStore.put sha256 i actor workspace_id data media_type)
      (fun t => t.owner ≠ some i) (fun _ t => t.owner ≠ some i) s := by
  refine Abides.seq hi (kept_check _ hs) fun _ s hi hs => ?_
  refine Abides.seq hi (kept_check _ hs) fun _ s hi hs => ?_
  refine Abides.seq hi (kept_check _ hs) fun _ s hi hs => ?_
  refine Abides.seq hi (kept_check _ hs) fun _ s hi hs => ?_
  refine Abides.seq hi (kept_uuid4 hs) fun a s hi hs => ?_
  refine Abides.seq hi (.query fun _ _ t ht _ => (stable_free.and stable_pending) s t ht hs)
    fun created_at s hi hs => ?_
  let record : ArtifactRecord :=
    ⟨a, workspace_id, sha256 data, data.length, media_type, created_at⟩
  have htx : Kept sha256 digest i (ArtifactStore.transaction sha256 i record data)
      (fun _ => False) (Settled i a) s := kept_transaction rfl rfl hs.left hs.right hi
  refine Abides.seq hi (htx.mono (fun _ _ _ => id) fun _ _ _ => False.elim)
    fun staged s hi hs => ?_
  obtain ⟨stage, result⟩ := staged
  obtain ⟨hfree, hstage, herror⟩ := hs
  cases result with
  | ok _    => exact .pure fun t ht _ => ht.free hfree
  | error e => exact kept_discard hstage ⟨hfree, herror e rfl⟩ hi e

end Put

section Delete

variable {ι : Type} [DecidableEq ι] {sha256 : Bytes → String}
variable {digest : List (String × Json) → String} {i : ι} {s : State ι}
variable {id : String × String}

omit [DecidableEq ι] in
theorem committable_delete (hs : Invariant sha256 s) (h : s.db.referenced id = false) :
    Committable sha256 i s (s.db.delete_artifact id) where
  linked r hr := by
    obtain ⟨row, hrow, hid⟩ := hs.linked r hr
    refine ⟨row, Table.mem_delete.mpr ⟨hrow, ?_⟩, hid⟩
    simp only [decide_eq_false_iff_not]
    rintro rfl
    have hn := List.any_eq_false.mp h r hr
    simp [hid] at hn
  rows row hr := .inl (Table.mem_delete.mp hr).left

-- What the transaction of `delete_unreferenced` is about to commit.
def Deleting (i : ι) (id : String × String) (deleted : Bool) (s : State ι) : Prop :=
  ∃ d, s.tx = some ⟨i, d⟩ ∧
    (deleted → (∃ row ∈ s.db.rows, row.id = id) ∧ ∀ row ∈ d.rows, row.id ≠ id)

omit [DecidableEq ι] in
theorem Deleting.stable {deleted : Bool} : Stable i (Deleting i id deleted) := by
  intro s t hr ⟨d, htx, hd⟩
  obtain ⟨htx', hdb⟩ := hr.held <| owner_of_tx htx
  exact ⟨d, htx'.trans htx, fun h => hdb ▸ hd h⟩

omit [DecidableEq ι] in
theorem Deleting.commit {deleted : Bool} (h : Deleting i id deleted s) :
    deleted → id ∈ s.commit.deleted := by
  intro hdel
  obtain ⟨d, htx, hd⟩ := h
  obtain ⟨⟨row, hrow, hid⟩, hn⟩ := hd hdel
  have hmem : id ∈ s.db.tables.artifacts := by
    rw [s.db.ready]
    exact List.mem_map.mpr ⟨row, hrow, hid⟩
  have hnot : id ∉ d.tables.artifacts := by
    rw [d.ready]
    exact fun h => (List.mem_map.mp h).elim fun row h => hn row h.left h.right
  simp [State.commit, htx, hmem, hnot]

theorem kept_delete_row {workspace_id artifact_id : String} (hs : Holds i s) (hi : Invariant sha256 s) :
    Kept sha256 digest i (ArtifactStore.delete_row workspace_id artifact_id)
      (fun t => t.owner = some i)
      (fun deleted t => Prepared sha256 i t ∧ Deleting i (workspace_id, artifact_id) deleted t) s := by
  have hfalse : ∀ t, Invariant sha256 t → Holds i t →
      Prepared sha256 i t ∧ Deleting i (workspace_id, artifact_id) false t :=
    fun t hi ht => ⟨ht.prepared hi, t.db, ht, nofun⟩
  have hstable : ∀ b, Stable i fun t => Prepared sha256 i t ∧
      Deleting i (workspace_id, artifact_id) b t := fun b => Prepared.stable.and Deleting.stable
  refine Abides.seq hi ((kept_read Holds.stable (fun _ => rfl) hs).mono (fun _ _ _ h => h.left)
    fun _ _ _ h => owner_of_tx h) fun referenced t hi ht => ?_
  refine .ite (fun _ => .pure fun u hu _ => hstable _ t u hu <| hfalse t hi ht) fun _ => ?_
  let P (rowcount : ℕ) (u : State ι) : Prop := Prepared sha256 i u ∧
    Deleting i (workspace_id, artifact_id) (rowcount = 1) u
  refine Abides.seq hi (P := P) (kept_execute (fun r => hstable _) stable_owned
    (fun u hu => stable_owned t u hu <| owner_of_tx ht) fun u hu hi _ => ?_)
    fun rowcount u hi hu => .pure fun v hv _ => hstable _ u v hv hu
  have hu := Holds.stable t u hu ht
  have hperform := State.perform_delete_artifact (workspace_id, artifact_id) hu
  cases h : u.db.referenced (workspace_id, artifact_id) with
  | true  =>
    rw [h, if_pos rfl] at hperform
    exact ⟨_, _, hperform, .within hi hu, rfl⟩
  | false =>
    rw [h, if_neg Bool.false_ne_true] at hperform
    refine ⟨_, _, hperform, .within hi hu, ?_⟩
    have hd : Committable sha256 i u (u.db.delete_artifact (workspace_id, artifact_id)) :=
      committable_delete hi h
    have hpend : ∀ a tx, Pending i a u → Pending i a { u with tx } :=
      fun a tx h => h.of_rows rfl (fun _ h => h) rfl
    refine ⟨⟨_, rfl, hd.linked, fun row hrow => ?_⟩, _, rfl, fun hone => ⟨?_, fun row hrow => ?_⟩⟩
    · exact (hd.rows row hrow).imp_right fun ⟨hp, hf⟩ => ⟨hpend _ _ hp, hf⟩
    · have hpos : 0 < u.db.rows.rows.countP (·.id = (workspace_id, artifact_id)) := by
        rw [of_decide_eq_true hone]
        exact Nat.one_pos
      obtain ⟨row, hrow, hid⟩ := List.countP_pos_iff.mp hpos
      exact ⟨row, hrow, of_decide_eq_true hid⟩
    · simpa using (Table.mem_delete.mp hrow).right

theorem kept_delete_file (hs : s.owner ≠ some i ∧ id ∈ s.deleted) (hi : Invariant sha256 s) :
    Kept sha256 digest i (ArtifactStore.delete_file (final id)) (fun t => t.owner ≠ some i)
      (fun _ t => t.owner ≠ some i) s := by
  let P (t : State ι) : Prop := t.owner ≠ some i ∧ id ∈ t.deleted
  have hp : Stable i P := stable_free.and fun _ _ hr h => hr.deleted _ h
  refine Abides.seq hi ((kept_read hp (fun _ => rfl) hs).mono (fun _ _ _ h => h.left)
    fun _ _ _ h => h.left) fun found t hi ht => ?_
  refine .ite (fun _ => ?_) fun _ => .pure fun u hu _ => hu.free ht.left
  have hunlink : Kept sha256 digest i (execute (.unlink (final id) false)) P (fun _ => P) t := by
    refine kept_unlink hp (fun _ _ h => h) ht (fun t hi ht row hr he => ?_)
      fun t hi ht => .inr fun j _ w a h he => ?_
    · refine (hi.retired id ht.right).right row hr <| Prod.ext ?_ ?_
      · exact congrArg Path.workspace_id he
      · exact congrArg Path.name he
    · exact h.deleted id ht.right (congrArg Path.name he).symm
  exact hunlink.mono (fun _ _ _ => And.left) fun _ _ _ => And.left

theorem kept_delete_unreferenced {actor : Actor} {workspace_id artifact_id : String}
    (hs : s.owner ≠ some i) (hi : Invariant sha256 s) :
    Kept sha256 digest i (ArtifactStore.delete_unreferenced i actor workspace_id artifact_id)
      (fun t => t.owner ≠ some i) (fun _ t => t.owner ≠ some i) s := by
  refine Abides.seq hi (kept_check _ hs) fun _ s hi hs => ?_
  refine Abides.seq hi (kept_check _ hs) fun _ s hi hs => ?_
  let R (deleted : Bool) (t : State ι) : Prop := deleted → (workspace_id, artifact_id) ∈ t.deleted
  refine Abides.seq hi (P := fun deleted t => t.owner ≠ some i ∧ R deleted t)
    (kept_workspace_transaction (fun _ => Deleting.stable)
      (fun _ _ _ hr h hd => hr.deleted _ <| h hd) (fun _ _ _ h => h.commit)
      (fun t hi ht => kept_delete_row ht hi) hs hi) fun deleted s hi hs => ?_
  cases deleted with
  | false => exact .pure fun t ht _ => ht.free hs.left
  | true  =>
    have hp : Stable i fun t => t.owner ≠ some i ∧ R true t :=
      stable_free.and fun _ _ hr h hd => hr.deleted _ <| h hd
    refine Abides.seq hi (.ofExcept (fun _ _ t ht _ => hp s t ht hs)
      fun _ _ t ht _ => ht.free hs.left) fun _ s hi hs => ?_
    refine Abides.seq hi (kept_delete_file ⟨hs.left, hs.right rfl⟩ hi) fun _ s hi hs => ?_
    exact .pure fun t ht _ => ht.free hs

end Delete

section Recover

variable {ι : Type} [DecidableEq ι] {sha256 : Bytes → String}
variable {digest : List (String × Json) → String} {i : ι} {s : State ι}
variable {actor : Actor} {workspace_id : String}

def Statement.Reads (c : Statement ι) : Prop :=
  ∀ s : State ι, ((store ι).perform c s).2 = s

-- A program whose calls only read.
abbrev Reads {α : Type} (p : Prog (sig ι) α) : Prop :=
  p.Calls (store ι) (fun _ _ => True) Statement.Reads

theorem kept_of_reads {α : Type} {p : Prog (sig ι) α} {P : State ι → Prop} (hp : Stable i P)
    (h : Reads p) (hs : P s) : Kept sha256 digest i p P (fun _ => P) s := by
  induction p generalizing s with
  | pure a      => exact fun t ht _ => hp s t ht hs
  | throw e     => exact fun t ht _ => hp s t ht hs
  | ask q k ih  => exact fun r _ => ih r (h r trivial) hs
  | call d k ih =>
    intro t ht hi _
    have hread : ((store ι).perform d t).2 = t := h.left t
    have hk := ih _ (h.right t) (hp s t ht hs)
    refine ⟨?_, ?_⟩
    · rw [hread]
      exact Moves.refl hi
    · rwa [hread]

omit [DecidableEq ι] in
theorem reads_execute {c : Statement ι} (h : c.Reads) : Reads (execute c) :=
  .bind (.of_query _) fun
    | some _ => .of_throw _
    | none   => Prog.Calls.of_perform.mpr h

omit [DecidableEq ι] in
theorem reads_read_bytes {path : Path} : Statement.Reads (ι := ι) (.read_bytes path) := fun _ => by
  rw [State.perform_read_bytes]

omit [DecidableEq ι] in
theorem reads_get {artifact_id : String} :
    Reads (ArtifactStore.get (ι := ι) sha256 actor workspace_id artifact_id) := by
  have hrecord : Reads (ArtifactStore.record (ι := ι) actor workspace_id artifact_id) :=
    .bind (.of_ofExcept _) fun _ => .bind (reads_execute fun _ => rfl) fun
      | some _ => .of_pure _
      | none   => .of_throw _
  have hread : Reads (ArtifactStore.read_bytes (ι := ι) (final (workspace_id, artifact_id))) := by
    refine .tryCatch (reads_execute reads_read_bytes) fun e => ?_
    split <;> exact .of_throw _
  exact .bind hrecord fun _ => .bind (.of_ofExcept _) fun _ => .bind (.of_ofExcept _) fun _ =>
    .bind hread fun _ => .bind (.of_ofExcept _) fun _ => .of_pure _

omit [DecidableEq ι] in
theorem reads_unavailable (records : List ArtifactRecord) :
    Reads (ArtifactStore.unavailable (ι := ι) sha256 actor workspace_id records) := by
  induction records with
  | nil                 => exact .of_pure _
  | cons record recs ih =>
    refine .bind (.tryCatch (.bind reads_get fun _ => .of_pure _) fun e => ?_) fun _ =>
      .bind ih fun _ => .of_pure _
    split <;> first | exact .of_pure _ | exact .of_throw _

-- The thread knows the ids of all rows of the workspace.
def Recovering (i : ι) (workspace_id : String) (committed : List String) (s : State ι) : Prop :=
  Holds i s ∧ ∀ row ∈ s.db.rows, row.workspace_id = workspace_id → row.artifact_id ∈ committed

omit [DecidableEq ι] in
theorem Recovering.stable {committed : List String} :
    Stable i (Recovering i workspace_id committed) := by
  intro s t hr ⟨hs, hc⟩
  refine ⟨Holds.stable s t hr hs, ?_⟩
  rw [(hr.held <| owner_of_tx hs).right]
  exact hc

theorem kept_remove_uncommitted {committed : List String} (names : List String)
    (hs : Recovering i workspace_id committed s) (hi : Invariant sha256 s) :
    Kept sha256 digest i (ArtifactStore.remove_uncommitted workspace_id committed names)
      (fun t => t.owner = some i) (fun _ => Recovering i workspace_id committed) s := by
  induction names generalizing s with
  | nil             => exact .pure fun t ht _ => Recovering.stable s t ht hs
  | cons name names ih =>
    refine Abides.seq hi ((kept_of_reads Recovering.stable (reads_execute fun _ => rfl) hs).mono
      (fun _ _ _ => id) fun _ _ _ h => owner_of_tx h.left) fun found t hi ht => ?_
    refine .ite (fun hfound => ?_) fun _ => ih ht hi
    simp only [Bool.and_eq_true, decide_eq_true_eq] at hfound
    have hunlink : Kept sha256 digest i (execute (.unlink ⟨.artifacts, workspace_id, name⟩ false))
        (Recovering i workspace_id committed) (fun _ => Recovering i workspace_id committed) t := by
      refine kept_unlink Recovering.stable (fun _ _ h => h) ht (fun t _ ht row hr he => ?_)
        fun t _ ht => .inl <| owner_of_tx ht.left
      have hname : row.artifact_id = name := congrArg Path.name he
      exact hfound.left.right <| hname ▸ ht.right row hr (congrArg Path.workspace_id he)
    refine Abides.seq hi (hunlink.mono (fun _ _ _ => id) fun _ _ _ h => owner_of_tx h.left)
      fun _ u hi hu => ?_
    refine Abides.seq hi (ih hu hi) fun removed v hi hv => ?_
    exact .pure fun w hw _ => Recovering.stable v w hw hv

theorem kept_list (hs : Holds i s) (hi : Invariant sha256 s) :
    Kept sha256 digest i (ArtifactStore.list actor workspace_id) (Holds i)
      (fun records => Recovering i workspace_id (records.map (·.artifact_id))) s := by
  refine Abides.seq hi (.ofExcept (fun _ _ t ht _ => Holds.stable s t ht hs)
    fun _ _ t ht _ => Holds.stable s t ht hs) fun _ s hi hs => ?_
  refine (kept_read Holds.stable (fun _ => rfl) hs).mono (fun records t _ ht => ?_) fun _ _ _ => id
  obtain ⟨ht, u, hu, hut, hr⟩ := ht
  obtain rfl := Except.ok.inj hr
  refine ⟨ht, fun row hrow hw => List.mem_map.mpr ⟨row, List.mem_filter.mpr ⟨?_, by simpa using hw⟩, rfl⟩⟩
  have hcurrent : u.current = u.db := by
    rw [State.current, show u.tx = _ from hu]
    rfl
  rw [hcurrent, ← (hut.held <| owner_of_tx hu).right]
  exact hrow

theorem kept_recover (hs : s.owner ≠ some i) (hi : Invariant sha256 s) :
    Kept sha256 digest i (ArtifactStore.recover sha256 i actor workspace_id)
      (fun t => t.owner ≠ some i) (fun _ t => t.owner ≠ some i) s := by
  refine Abides.seq hi (kept_check _ hs) fun _ s hi hs => ?_
  have htrue : Stable i fun _ => True := fun _ _ _ _ => trivial
  refine (kept_workspace_transaction (P := fun _ _ => True) (fun _ => htrue) (fun _ => htrue)
    (fun _ _ _ _ => trivial) (fun t hi ht => ?_) hs hi).mono (fun _ _ _ => And.left)
    fun _ _ _ => id
  refine Abides.seq hi (.ofExcept (fun _ _ u hu _ => Holds.stable t u hu ht)
    fun _ _ u hu _ => owner_of_tx <| Holds.stable t u hu ht) fun _ t hi ht => ?_
  have howner : ∀ {committed : List String} (t : State ι),
      Recovering i workspace_id committed t → t.owner = some i := fun t ht => owner_of_tx ht.left
  refine Abides.seq hi ((kept_list ht hi).mono (fun _ _ _ => id) fun _ _ _ => owner_of_tx)
    fun records t hi ht => ?_
  refine Abides.seq hi ((kept_of_reads Recovering.stable (reads_execute fun _ => rfl) ht).mono
    (fun _ _ _ => id) fun _ t _ => howner t) fun names t hi ht => ?_
  refine Abides.seq hi (kept_remove_uncommitted names ht hi) fun removed t hi ht => ?_
  refine Abides.seq hi ((kept_of_reads Recovering.stable (reads_unavailable records) ht).mono
    (fun _ _ _ => id) fun _ t _ => howner t) fun missing t hi ht => ?_
  exact .pure fun u hu hi => ⟨(Recovering.stable t u hu ht).left.prepared hi, trivial⟩

end Recover

section Create

variable {ι : Type} [DecidableEq ι] {sha256 : Bytes → String}
variable {digest : List (String × Json) → String} {i : ι} {s : State ι}

-- The tables only refer to artifacts that are there.
def Linked (s : Versions.State) : Prop :=
  ∀ r ∈ s.references, (r.workspace_id, r.artifact_id) ∈ s.artifacts

theorem perform_linked (c : Versions.Statement) {s : Versions.State} (h : Linked s) :
    Linked (Versions.store.perform c s).2 := by
  intro r hr
  rw [perform_artifacts]
  cases c with
  | insert_version v   =>
    simp only [Versions.State.insert_version] at hr
    split at hr
    · exact h r hr
    · split at hr
      · exact h r hr
      · split at hr <;> exact h r hr
  | insert_reference r' =>
    simp only [Versions.State.insert_reference] at hr
    split at hr
    · exact h r hr
    case isFalse hready =>
      split at hr
      · exact h r hr
      case h_2 hinsert =>
        simp only [Bool.or_eq_true, decide_eq_true_eq, not_or, not_not] at hready
        rw [Table.mem_rows, (Table.insert_eq_some_iff.mp hinsert).right, List.mem_append] at hr
        rcases hr with hr | hr
        · exact h r hr
        · obtain rfl := List.mem_singleton.mp hr
          exact hready.right
  | _                  => exact h r hr

omit [DecidableEq ι] in
theorem linked_iff {d : Database} : Linked d.tables ↔ d.Linked := by
  refine forall₂_congr fun r _ => ?_
  rw [d.ready]
  exact List.mem_map

-- A transaction that only wrote versions.
def Writing (i : ι) (s : State ι) : Prop :=
  ∃ d, s.tx = some ⟨i, d⟩ ∧ d.rows = s.db.rows ∧ d.Linked

omit [DecidableEq ι] in
theorem Writing.stable : Stable i (Writing (ι := ι) i) := by
  intro s t hr ⟨d, htx, hrows, hd⟩
  obtain ⟨htx', hdb⟩ := hr.held <| owner_of_tx htx
  exact ⟨d, htx'.trans htx, hdb ▸ hrows, hd⟩

omit [DecidableEq ι] in
theorem Writing.owner (h : Writing i s) : s.owner = some i :=
  h.elim fun _ h => owner_of_tx h.left

omit [DecidableEq ι] in
theorem Writing.prepared (h : Writing i s) : Prepared sha256 i s := by
  obtain ⟨d, htx, hrows, hd⟩ := h
  exact ⟨d, htx, hd, fun row hr => .inl <| hrows ▸ hr⟩

-- Whatever statements of the versions a transaction makes.
theorem kept_versions {α : Type} (p : Prog Versions.sql α) (hs : Writing i s) :
    Kept sha256 digest i (p.embed version_calls) (fun t => t.owner = some i)
      (fun _ t => Prepared sha256 i t) s := by
  induction p generalizing s with
  | pure a      => exact fun t ht _ => (Writing.stable s t ht hs).prepared
  | throw e     => exact fun t ht _ => (Writing.stable s t ht hs).owner
  | ask q k ih  => exact fun r _ => ih _ hs
  | call c k ih =>
    intro t ht hi _
    obtain ⟨d, htx, hrows, hd⟩ := Writing.stable s t ht hs
    have hperform := State.perform_versions c htx
    have hmoves : Moves sha256 i t ((store ι).perform (.versions c) t).2 := by
      rw [hperform]
      exact .within hi htx
    refine ⟨hmoves, ih _ ?_⟩
    change Writing i ((store ι).perform (.versions c) t).2
    rw [hperform]
    exact ⟨_, rfl, hrows, linked_iff.mp <| perform_linked c <| linked_iff.mpr hd⟩

theorem kept_create {r : Request} (hs : s.owner ≠ some i) (hi : Invariant sha256 s) :
    Kept sha256 digest i (create digest i r) (fun t => t.owner ≠ some i)
      (fun _ t => t.owner ≠ some i) s := by
  refine Abides.seq hi (kept_check _ hs) fun c s hi hs => ?_
  have htrue : Stable i fun _ => True := fun _ _ _ _ => trivial
  refine (kept_workspace_transaction (P := fun _ _ => True) (fun _ => htrue) (fun _ => htrue)
    (fun _ _ _ _ => trivial) (fun t hi ht => ?_) hs hi).mono (fun _ _ _ => And.left)
    fun _ _ _ => id
  exact (kept_versions _ ⟨t.db, ht, rfl, hi.linked⟩).mono (fun _ _ _ h => ⟨h, trivial⟩)
    fun _ _ _ => id

end Create

section Runs

variable {ι : Type} [DecidableEq ι] {sha256 : Bytes → String}
variable {digest : List (String × Json) → String}

theorem kept_prog {i : ι} {s : State ι} (c : Call) (hs : s.owner ≠ some i)
    (hi : Invariant sha256 s) :
    Kept sha256 digest i (c.prog sha256 digest i) (fun t => t.owner ≠ some i)
      (fun _ t => t.owner ≠ some i) s := by
  have hreturn : ∀ t : State ι, t.owner ≠ some i →
      Kept sha256 digest i (return ()) (fun t => t.owner ≠ some i) (fun _ t => t.owner ≠ some i) t :=
    fun t ht => .pure fun _ hu _ => hu.free ht
  cases c with
  | put actor workspace_id data media_type             =>
    exact Abides.seq hi (kept_put hs hi) fun _ t _ => hreturn t
  | create r                                           =>
    exact Abides.seq hi (kept_create hs hi) fun _ t _ => hreturn t
  | delete_unreferenced actor workspace_id artifact_id =>
    exact Abides.seq hi (kept_delete_unreferenced hs hi) fun _ t _ => hreturn t
  | recover actor workspace_id                         =>
    exact Abides.seq hi (kept_recover hs hi) fun _ t _ => hreturn t

theorem invariant_of_reachable {x : Pool ι (store ι) Unit}
    (r : (crew sha256 digest ι).machine.Reachable x) : Invariant sha256 x.store := by
  refine (Crew.Invariant.reachable (h := sound) (fun i p hp s hi hf => ?_) r).store
  obtain ⟨c, rfl⟩ := hp
  exact kept_prog c hf hi

-- Where a call removes a file, whoever makes it, no row names that file.
theorem no_row_of_unlink {x y : Pool ι (store ι) Unit} {i : ι} {path : Path} {missing_ok : Bool}
    {reply : Except Error Unit} (r : (crew sha256 digest ι).machine.Reachable x)
    (st : (crew sha256 digest ι).machine.step x (.run i (some ⟨.unlink path missing_ok, reply⟩)) y) :
    ∀ row ∈ x.store.db.rows, final row.id ≠ path := by
  have hi := invariant_of_reachable <| r.step st
  cases st with
  | run _ _ p t st hr =>
    have hserved : (store ι).perform (.unlink path missing_ok) x.store = (reply, t) := st.serves
    have hgone : t.db = x.store.db ∧ t.read path = none := by
      dsimp only [store] at hserved
      split at hserved
      case isTrue h  =>
        obtain ⟨-, rfl⟩ := Prod.mk.inj hserved
        simp only [Bool.and_eq_true, Option.isNone_iff_eq_none] at h
        exact ⟨rfl, h.left⟩
      case isFalse h =>
        obtain ⟨-, rfl⟩ := Prod.mk.inj hserved
        exact ⟨rfl, State.read_unlink.trans <| if_pos rfl⟩
    rintro row hrow rfl
    obtain ⟨data, hd, -⟩ := hi.stored row (hgone.left ▸ hrow)
    rw [hgone.right] at hd
    cases hd

-- References are to rows and rows have their files, wherever a process died and whatever the
-- others did meanwhile. Only files without a row are ever removed.
theorem never_dangling {x : Pool ι (store ι) Unit}
    (r : (crew sha256 digest ι).machine.Reachable x) :
    Intact sha256 x.store ∧
      ∀ i path missing_ok reply y,
        (crew sha256 digest ι).machine.step x (.run i (some ⟨.unlink path missing_ok, reply⟩)) y →
        ∀ row ∈ x.store.db.rows, final row.id ≠ path :=
  ⟨(invariant_of_reachable r).toIntact, fun _ _ _ _ _ st => no_row_of_unlink r st⟩

end Runs

namespace Sample

def sha256 (data : Bytes) : String :=
  toString data.length

def digest (_ : List (String × Json)) : String :=
  ""

def database : Database where
  rows   := .empty
  tables := ⟨[], [], .empty, .empty, .empty⟩
  ready  := rfl

def state : State Unit :=
  ⟨database, none, .empty, 0, [], []⟩

def answers : ∀ q, (sig Unit).Answer q
  | .uuid4      => "0123456789abcdef0123456789abcdef"
  | .tempname   => "tmp"
  | .now        => "now"
  | .failure _  => none
  | .versions _ => ""

def put : Prog (sig Unit) Unit :=
  (Call.put ⟨"a", "w", .owner⟩ "w" [1, 2] "text/html").prog sha256 digest ()

theorem alone : (crew sha256 digest Unit).Alone answers put state := by
  refine ⟨trivial, ⟨?_, ?_⟩, ?_⟩
  · decide
  · exact fun _ => List.not_mem_nil
  · repeat constructor

theorem rows : (put.eval (store Unit) answers state).2.db.rows.rows.length = 1 := by
  rfl

def start : Pool Unit (store Unit) Unit :=
  ⟨fun _ => .pure (), state⟩

def started : Pool Unit (store Unit) Unit :=
  ⟨Function.update start.threads () put, state⟩

theorem reachable : (crew sha256 digest Unit).machine.Reachable started :=
  .step (.init ⟨fun _ => rfl, rfl, rfl, rfl, rfl, rfl⟩) <| .start () put trivial ⟨_, rfl⟩

theorem ended : ∃ x, (crew sha256 digest Unit).machine.Reachable x ∧
    x.store = (put.eval (store Unit) answers state).2 := by
  have hput : started.threads () = put := by simp [started]
  obtain ⟨x, r, -, hx⟩ := Crew.reachable_of_alone put reachable hput alone
  exact ⟨x, r, hx⟩

end Sample

-- After an artifact was put, its row has its file.
theorem never_dangling_put : ∃ x : Pool Unit (store Unit) Unit,
    x.store.db.rows.rows.length = 1 ∧ Intact Sample.sha256 x.store := by
  obtain ⟨x, r, hx⟩ := Sample.ended
  refine ⟨x, ?_, (never_dangling r).left⟩
  rw [hx]
  exact Sample.rows

end Artifacts
