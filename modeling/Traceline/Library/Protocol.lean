import Traceline.Library.Rely

namespace Prog

variable {S : Sig} {M : Store S} {ι φ α β : Type}

instance : DecidablePred (Ended (S := S) (α := α))
  | .pure _ | .throw _   => .isTrue trivial
  | .call _ _ | .ask _ _ => .isFalse id

-- An order of calls: which ones a program may make in a phase, and the phase that each leads to.
structure Protocol (M : Store S) (φ : Type) where
  allow  : ∀ q : S.Query, S.Answer q → Prop
  allows : φ → S.Call → Prop
  next   : φ → Event S → φ

-- From phase `x` on the program makes its calls in order, whatever the store replies, and it ends
-- in a phase where `Q` or `E` holds.
def Follows (P : Protocol M φ) (E : S.Error → φ → Prop) : Prog S α → (α → φ → Prop) → φ → Prop
  | .pure a,   Q, x => Q a x
  | .throw e,  _, x => E e x
  | .call c k, Q, x => P.allows x c ∧
    ∀ s, (k (M.perform c s).1).Follows P E Q (P.next x ⟨c, (M.perform c s).1⟩)
  | .ask q k,  Q, x => ∀ r, P.allow q r → (k r).Follows P E Q x

namespace Follows

variable {P : Protocol M φ} {E F : S.Error → φ → Prop} {p : Prog S α} {x : φ}
variable {Q R : α → φ → Prop}

theorem mono (h : p.Follows P E Q x) (hq : ∀ a x, Q a x → R a x) (he : ∀ e x, E e x → F e x) :
    p.Follows P F R x := by
  induction p generalizing x with
  | pure a      => exact hq a x h
  | throw e     => exact he e x h
  | call c k ih => exact ⟨h.left, fun s => ih _ <| h.right s⟩
  | ask q k ih  => exact fun r hr => ih r <| h r hr

theorem seq {g : α → Prog S β} {Q : β → φ → Prop} (h : p.Follows P E R x)
    (hg : ∀ a x, R a x → (g a).Follows P E Q x) : (p >>= g).Follows P E Q x := by
  induction p generalizing x with
  | pure a      => exact hg a x h
  | throw e     => exact h
  | call c k ih => exact ⟨h.left, fun s => ih _ <| h.right s⟩
  | ask q k ih  => exact fun r hr => ih r <| h r hr

-- A handler runs where the program before it raised.
theorem attempt {g : S.Error → Prog S α} (h : p.Follows P F Q x)
    (hg : ∀ e x, F e x → (g e).Follows P E Q x) : (tryCatch p g).Follows P E Q x := by
  change (p.handle g).Follows P E Q x
  induction p generalizing x with
  | pure a      => exact h
  | throw e     => exact hg e x h
  | call c k ih => exact ⟨h.left, fun s => ih _ <| h.right s⟩
  | ask q k ih  => exact fun r hr => ih r <| h r hr

theorem ofExcept {y : Except S.Error α} (hok : ∀ a, y = .ok a → Q a x)
    (herr : ∀ e, y = .error e → E e x) : (ofExcept y).Follows P E Q x := by
  cases y with
  | ok a    => exact hok a rfl
  | error e => exact herr e rfl

theorem query {q : S.Query} {Q : S.Answer q → φ → Prop} (h : ∀ r, P.allow q r → Q r x) :
    (query q).Follows P E Q x :=
  h

theorem perform {c : S.Call} {Q : S.Reply c → φ → Prop} (h : P.allows x c)
    (hok : ∀ s r, (M.perform c s).1 = .ok r → Q r (P.next x ⟨c, .ok r⟩))
    (herr : ∀ s e, (M.perform c s).1 = .error e → E e (P.next x ⟨c, .error e⟩)) :
    (perform c).Follows P E Q x := by
  refine ⟨h, fun s => .ofExcept (fun a ha => ?_) fun e he => ?_⟩
  · rw [ha]
    exact hok s a ha
  · rw [he]
    exact herr s e he

end Follows

namespace Protocol

variable [DecidableEq ι] (P : Protocol M φ) (start : φ)

-- What a step of a crew means for the phases its threads are in.
def advance (phase : ι → φ) : Crew.Label ι S → ι → φ
  | .run i (some e)    => Function.update phase i (P.next (phase i) e)
  | .run _ none        => phase
  | .start i | .die i  => Function.update phase i start
  | .drift             => phase

def phases (ls : List (Crew.Label ι S)) : ι → φ :=
  ls.foldl (P.advance start) fun _ => start

@[simp]
theorem phases_snoc (ls : List (Crew.Label ι S)) (l : Crew.Label ι S) :
    P.phases start (ls ++ [l]) = P.advance start (P.phases start ls) l := by
  simp [phases]

end Protocol

namespace Crew

variable [DecidableEq ι] {P : Protocol M φ} {start : φ} {done : φ → Prop} {w : Crew ι M α}
variable {x y : Pool ι M α} {ls : List (Label ι S)}

-- From its phase on the program keeps the order, and it ends in a phase where it is done.
def Orderly (P : Protocol M φ) (done : φ → Prop) (p : Prog S α) (x : φ) : Prop :=
  p.Follows P (fun _ => done) (fun _ => done) x

theorem Orderly.of_ended {p : Prog S α} {z : φ} (h : Ended p) (hz : done z) :
    Orderly P done p z := by
  cases p with
  | pure _ | throw _   => exact hz
  | call _ _ | ask _ _ => exact h.elim

theorem Orderly.done_of_ended {p : Prog S α} {z : φ} (h : Orderly P done p z) (hp : Ended p) :
    done z := by
  cases p with
  | pure _ | throw _   => exact h
  | call _ _ | ask _ _ => exact hp.elim

-- The call that a thread in order makes next is one that its phase allows.
theorem Orderly.step {p p' : Prog S α} {z : φ} {s s' : M.State} {e : Option (Event S)}
    (h : Orderly P done p z) (st : Prog.Step M P.allow p s e p' s') :
    (∀ d ∈ e, P.allows z d.call) ∧ Orderly P done p' (e.elim z (P.next z)) := by
  cases st with
  | call  => exact ⟨fun d hd => by cases hd; exact h.left, h.right _⟩
  | ask r => exact ⟨fun d hd => by (cases hd), h _ r⟩

-- Where all that may start keeps the order, every thread does, from the phase it is in.
theorem orderly (ha : w.allow = P.allow) (hidle : Ended w.idle) (hdone : done start)
    (hp : ∀ i p, w.programs i p → Orderly P done p start) (hx : w.machine.init x)
    (r : w.machine.Run x ls y) (i : ι) : Orderly P done (y.threads i) (P.phases start ls i) := by
  induction r generalizing i with
  | refl       => exact .of_ended (hx.left i ▸ hidle) hdone
  | step _ st ih =>
    rw [P.phases_snoc]
    cases st with
    | run j e p t st _ =>
      have hj := (ih j).step (ha ▸ st) |>.right
      by_cases hi : i = j
      · subst hi
        cases e <;> simpa [Protocol.advance] using hj
      · cases e <;> simpa [Protocol.advance, hi] using ih i
    | start j p _ hw   =>
      by_cases hi : i = j
      · subst hi
        simpa [Protocol.advance] using hp i p hw
      · simpa [Protocol.advance, hi] using ih i
    | die j            =>
      by_cases hi : i = j
      · subst hi
        simpa [Protocol.advance] using .of_ended hidle hdone
      · simpa [Protocol.advance, hi] using ih i
    | drift t _        => exact ih i

-- What a schedule says of a crew: whose turn it is, who starts what, and who dies.
inductive Turn (ι : Type) (S : Sig) (α : Type)
  | run (i : ι)
  | start (i : ι) (p : Prog S α)
  | die (i : ι)

-- The run of a crew under a schedule and fixed answers.
def play (w : Crew ι M α) (env : ∀ q, S.Answer q) :
    List (Turn ι S α) → Pool ι M α → List (Label ι S) × Pool ι M α
  | [],               x => ([], x)
  | .run i :: ts,     x =>
    match x.threads i with
    | .pure _ | .throw _ => w.play env ts x
    | .call c k          =>
      let r := (M.perform c x.store).1
      let (ls, y) := w.play env ts ⟨Function.update x.threads i (k r), (M.perform c x.store).2⟩
      (.run i (some ⟨c, r⟩) :: ls, y)
    | .ask q k           =>
      let (ls, y) := w.play env ts ⟨Function.update x.threads i (k (env q)), x.store⟩
      (.run i none :: ls, y)
  | .start i p :: ts, x =>
    match x.threads i with
    | .pure _ | .throw _   =>
      let (ls, y) := w.play env ts ⟨Function.update x.threads i p, x.store⟩
      (.start i :: ls, y)
    | .call _ _ | .ask _ _ => w.play env ts x
  | .die i :: ts,     x =>
    let (ls, y) := w.play env ts ⟨Function.update x.threads i w.idle, w.abandon i x.store⟩
    (.die i :: ls, y)

theorem step_run {l : Label ι S} (st : w.Step x l y) : w.machine.Run x [l] y :=
  Machine.Run.single (m := w.machine) st

theorem play_run {env : ∀ q, S.Answer q} (ha : ∀ q, w.allow q (env q)) (hr : ∀ c s, w.ready c s)
    (ts : List (Turn ι S α)) (hp : ∀ i p, .start i p ∈ ts → w.programs i p) (x : Pool ι M α) :
    w.machine.Run x (w.play env ts x).1 (w.play env ts x).2 := by
  induction ts generalizing x with
  | nil          => exact .refl
  | cons turn ts ih =>
    have ih := ih fun i p h => hp i p <| .tail _ h
    cases turn with
    | run i     =>
      simp only [play]
      split
      case h_1 | h_2 => exact ih x
      case h_3 c k h =>
        have st : Prog.Step M w.allow (x.threads i) x.store (some ⟨c, (M.perform c x.store).1⟩)
            (k (M.perform c x.store).1) (M.perform c x.store).2 := h ▸ .call
        exact step_run (.run _ _ _ _ st fun d _ => hr d.call _) |>.trans <| ih _
      case h_4 q k h =>
        have st : Prog.Step M w.allow (x.threads i) x.store none (k (env q)) x.store :=
          h ▸ .ask (ha q)
        exact step_run (.run _ _ _ _ st fun d _ => hr d.call _) |>.trans <| ih _
    | start i p =>
      simp only [play]
      split
      case h_1 h | h_2 h =>
        exact step_run (.start i p (h ▸ trivial) <| hp i p <| .head _) |>.trans <| ih _
      case h_3 | h_4     => exact ih x
    | die i     => exact step_run (.die i) |>.trans <| ih _

end Crew

end Prog
