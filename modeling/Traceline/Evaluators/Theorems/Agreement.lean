import Traceline.Evaluators.Theorems.Lexing

-- The verdicts of the two languages on what they share.
namespace Agreement

open Predicates (Value)
open Events

variable {py : Python} {x : String} {ls : List Lexeme} {t t' : List Char}

theorem Spells.constants (h : Spells py x ls t t') {name : String} {value : Json}
    (hm : .constant name value ∈ ls) : (name, value) ∈ constants := by
  induction h with
  | nil                => cases hm
  | blank _ _ ih       => exact ih hm
  | lexeme hl _ _ _ ih =>
    cases hm with
    | head      => exact hl
    | tail _ hm => exact ih hm

-- The two texts are read as one expression.
theorem compile_agrees (hx : Name py x) (h : Spells py x ls t t') {c : Conditions.Node}
    {p : Predicates.Node} (hc : Conditions.compile py t = .ok c)
    (hp : Predicates.compile py t' = .ok p) : ∃ e, Means c e ∧ p = e.predicate x := by
  obtain ⟨ts, hts, hls⟩ := condition_tokens t h 0
  obtain ⟨ts', hts', hls'⟩ := predicate_tokens t' hx h 0
  unfold Conditions.compile at hc
  unfold Predicates.compile at hp
  split at hc
  · cases hc
  split at hp
  · cases hp
  rw [hts] at hc
  rw [hts'] at hp
  exact parse_agrees hx.toSegment ⟨hls, hls', fun _ _ hm => h.constants hm⟩ hc hp

-- Every part of a shared expression has one value in both languages exactly where no string holds
-- an escape that only predicates decode and no connective hangs on a value that is no truth value.
-- Then the two verdicts are the same.
theorem conditions_agree_iff (iso : String → Option Timestamp) (hx : Name py x)
    (h : Spells py x ls t t') {c : Conditions.Node} {p : Predicates.Node}
    (hc : Conditions.compile py t = .ok c) (hp : Predicates.compile py t' = .ok p) :
    ∃ e : Expr, Means c e ∧ p = e.predicate x ∧
      ∀ raw ev, Predicates.resolve ev .payload [x] = given raw →
        ((∀ s ∈ e.subexpressions, Same iso x raw ev s) ↔ e.alike ∧ e.Unswayed raw) ∧
        (e.alike ∧ e.Unswayed raw →
          Predicates.evaluate iso ev p = .ok (Conditions.evaluate raw c)) := by
  obtain ⟨e, hm, rfl⟩ := compile_agrees hx h hc hp
  refine ⟨e, hm, rfl, fun raw ev hv => ⟨same_iff hv, fun hcond => ?_⟩⟩
  have hs : Same iso x raw ev e := (same_iff hv).mpr hcond e mem_self
  rw [Predicates.evaluate, hs, Conditions.evaluate]
  exact congrArg (fun v => Except.ok (decide (v = Value.json (.bool true)))) (hm raw).symm

namespace Conjoined

-- ASCII text and integers in decimal.
def plain : Python where
  digit _  := false
  alpha _  := false
  alnum _  := false
  space _  := false
  int cs   := .ok <| cs.foldl (fun n c => 10 * n + (c.toNat - '0'.toNat : ℕ)) 0
  float _  := .error "no float"
  repr _   := ""

def ev (value : Json) : TraceEvent where
  event_id          := "e"
  run_id            := "r"
  workspace_id      := "w"
  case_id           := "c"
  attempt_id        := "a"
  type              := .llm_call
  timestamp         := ⟨0, some 0⟩
  payload           := some [("x", value)]
  tool_typed_column := llm_call_untyped

-- `raw_value && true` and `payload.x && true`
def condition : List Char :=
  "raw_value".toList ++ ' ' :: (['&', '&'] ++ ' ' :: ("true".toList ++ []))

def predicate : List Char :=
  ("payload.".toList ++ "x".toList) ++ ' ' :: (['&', '&'] ++ ' ' :: ("true".toList ++ []))

theorem name : Name plain "x" where
  visible  := by decide +kernel
  reserved := by decide
  named    := ⟨'x', [], by simp, rfl, rfl, nofun⟩

theorem spells : Spells plain "x" [.path, .symbol .and, .constant "true" (.bool true)] condition
    predicate := by
  have hblank : ∀ c ∈ (' ' :: (['&', '&'] ++ ' ' :: ("true".toList ++ []))).head?,
      plain.isname c = false ∧ plain.isdigit c = false ∧ c ≠ '.' := by
    intro c hc
    rw [← Option.some.inj hc]
    decide
  have htrue : Spells plain "x" [.constant "true" (.bool true)] ("true".toList ++ [])
      ("true".toList ++ []) := .lexeme (.head _) nofun nofun .nil
  exact .lexeme trivial hblank hblank <| .blank (.head _) <|
    .lexeme trivial trivial trivial <| .blank (.head _) htrue

-- What the condition says of a number.
theorem condition_holds : ∃ c, Conditions.compile plain condition = .ok c ∧
    Conditions.evaluate (some (.int 5)) c = true :=
  Except.exists_of_toOption_map <| by decide +kernel

theorem predicate_fails : ∃ p, Predicates.compile plain predicate = .ok p ∧
    Predicates.evaluate (fun _ => none) (ev (.int 5)) p = .ok false :=
  Except.exists_of_toOption_map <| by decide +kernel

end Conjoined

open Conjoined in
theorem number_coerced :
    ¬ ∀ (py : Python) (iso : String → Option Timestamp) (x : String) (ls : List Lexeme)
      (t t' : List Char) (c : Conditions.Node) (p : Predicates.Node), Name py x →
      Spells py x ls t t' → Conditions.compile py t = .ok c → Predicates.compile py t' = .ok p →
      ∀ raw ev, Predicates.resolve ev .payload [x] = given raw →
        Predicates.evaluate iso ev p = .ok (Conditions.evaluate raw c) := by
  intro h
  have ⟨c, hc, hcond⟩ := condition_holds
  have ⟨p, hp, hpred⟩ := predicate_fails
  have heq := h _ (fun _ => none) _ _ _ _ c p name spells hc hp (some (.int 5)) (ev (.int 5)) rfl
  rw [hcond, hpred] at heq
  cases heq

open Conjoined in
theorem conditions_agree_iff_conjoined : ∃ c p, Conditions.compile plain condition = .ok c ∧
    Predicates.compile plain predicate = .ok p ∧
    ∃ e : Expr, Means c e ∧ p = e.predicate "x" ∧
      ∀ raw ev, Predicates.resolve ev .payload ["x"] = given raw →
        ((∀ s ∈ e.subexpressions, Same (fun _ => none) "x" raw ev s) ↔
          e.alike ∧ e.Unswayed raw) ∧
        (e.alike ∧ e.Unswayed raw →
          Predicates.evaluate (fun _ => none) ev p = .ok (Conditions.evaluate raw c)) := by
  have ⟨c, hc, _⟩ := condition_holds
  have ⟨p, hp, _⟩ := predicate_fails
  exact ⟨c, p, hc, hp, conditions_agree_iff (fun _ => none) name spells hc hp⟩

end Agreement
