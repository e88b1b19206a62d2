import Traceline.Predicates.Parser
import Traceline.Library.Except

namespace Predicates

section Parser

variable {py : Python} {text : List Char} {d n : ℕ}

-- What a parser returns, whatever its bound.
def Returns (r : Except Error (Parsed n)) (node : Node) (rest : Tokens) : Prop :=
  ∃ h, r = .ok ⟨node, rest, h⟩

-- Some of the tokens derive from a rule, and the others are left.
def Spells (rule : Rule) (d : ℕ) (ts : Tokens) (node : Node) (rest : Tokens) : Prop :=
  ∃ us, ts = us ++ rest ∧ Derives Segment rule d (us.map Prod.fst) node

-- A parser of a rule that takes no more than what derives from it.
def Sound (rule : Rule) (d n : ℕ) (f : (ts : Tokens) → Except Error (Parsed ts.length)) : Prop :=
  ∀ ts, ts.length ≤ n → ∀ p, f ts = .ok p → Spells rule d ts p.node p.rest

theorem parse_segments_sound {ts segments} {rest : {rest : Tokens // rest.length ≤ ts.length}}
    (h : parse_segments py text ts = .ok (segments, rest)) :
    (∀ x ∈ segments, Segment x) ∧ ∃ us, ts = us ++ rest.val ∧
      us.map Prod.fst = segments.flatMap fun x => [.dot, .ident x] := by
  fun_induction parse_segments py text ts generalizing segments with
  | case1 | case2 | case4                  => cases h
  | case3 i name j ts hvisible hname ih =>
    obtain ⟨⟨xs, rest'⟩, hrest, h⟩ := Except.bind_eq_ok_iff.mp h
    cases h
    obtain ⟨hxs, us, hts, hus⟩ := ih hrest
    refine ⟨?_, (.dot, i) :: (.ident name, j) :: us, ?_, ?_⟩
    · exact List.forall_mem_cons.mpr ⟨⟨Bool.eq_false_of_not_eq_true hvisible, hname⟩, hxs⟩
    · rw [List.cons_append, List.cons_append, ← hts]
    · rw [List.map_cons, List.map_cons, hus]
      rfl
  | case5 ts                               =>
    cases h
    exact ⟨List.forall_mem_nil _, [], rfl, rfl⟩

theorem parse_path_sound {name ts node} {rest : {rest : Tokens // rest.length ≤ ts.length}}
    (h : parse_path py text name ts = .ok (node, rest)) :
    ∃ us, ts = us ++ rest.val ∧
      Derives Segment .primary d (.ident name :: us.map Prod.fst) node := by
  unfold parse_path at h
  split at h
  · cases h
  · split at h
    · cases h
    · rename_i field hfield
      obtain ⟨⟨segments, rest'⟩, hrest, h⟩ := Except.bind_eq_ok_iff.mp h
      cases h
      obtain ⟨hsegments, us, hts, hus⟩ := parse_segments_sound hrest
      exact ⟨us, hts, hus ▸ .path hfield hsegments⟩

theorem enter_nesting_eq_ok_iff {tok} :
    enter_nesting text d tok = .ok () ↔ d < max_nesting_depth := by
  unfold enter_nesting
  split
  case isTrue h  => simp [h]
  case isFalse h => simpa using h

theorem primary_sound (ih : ∀ m < n, ∀ d, Sound .or d m (parse_or py text d)) :
    Sound .primary d n (parse_primary py text d) := by
  intro ts hn p hp
  cases ts with
  | nil       => simp [parse_primary] at hp
  | cons t ts =>
    obtain ⟨tok, i⟩ := t
    cases tok with
    | op _ | dot | rparen | eof => simp [parse_primary] at hp
    | number value =>
      rw [parse_primary] at hp
      cases hp
      exact ⟨[(.number value, i)], rfl, .number⟩
    | string value =>
      rw [parse_primary] at hp
      cases hp
      exact ⟨[(.string value, i)], rfl, .string⟩
    | ident name =>
      rw [parse_primary] at hp
      split_ifs at hp with htrue hfalse hnull
      · cases hp
        exact ⟨[(.ident name, i)], rfl, htrue ▸ .true⟩
      · cases hp
        exact ⟨[(.ident name, i)], rfl, hfalse ▸ .false⟩
      · cases hp
        exact ⟨[(.ident name, i)], rfl, hnull ▸ .null⟩
      · obtain ⟨⟨node, rest⟩, hpath, hp⟩ := Except.bind_eq_ok_iff.mp hp
        cases hp
        obtain ⟨us, hts, hus⟩ := parse_path_sound hpath
        exact ⟨(.ident name, i) :: us, congrArg _ hts, hus⟩
    | lparen =>
      rw [parse_primary] at hp
      obtain ⟨_, hdepth, hp⟩ := Except.bind_eq_ok_iff.mp hp
      obtain ⟨⟨node, rest, hs⟩, hor, hp⟩ := Except.bind_eq_ok_iff.mp hp
      obtain ⟨us, hts, hus⟩ := ih ts.length hn (d + 1) ts le_rfl _ hor
      dsimp only at hts hp
      cases rest with
      | nil       => cases hp
      | cons t rest =>
        obtain ⟨tok, j⟩ := t
        cases tok with
        | ident _ | number _ | string _ | op _ | dot | lparen | eof => cases hp
        | rparen =>
          cases hp
          refine ⟨(.lparen, i) :: (us ++ [(.rparen, j)]), ?_, ?_⟩
          · dsimp only
            rw [hts, List.cons_append, List.append_assoc, List.singleton_append]
          · rw [List.map_cons, List.map_append]
            exact .group (enter_nesting_eq_ok_iff.mp hdepth) hus

theorem comparison_sound (ih : Sound .primary d n (parse_primary py text d)) :
    Sound .comparison d n (parse_comparison py text d) := by
  intro ts hn p hp
  rw [parse_comparison] at hp
  obtain ⟨⟨left, rest, hs⟩, hleft, hp⟩ := Except.bind_eq_ok_iff.mp hp
  obtain ⟨us, hts, hus⟩ := ih ts hn _ hleft
  have hsingle : Spells .comparison d ts left rest := ⟨us, hts, .of_primary hus⟩
  dsimp only at hts hp
  cases rest with
  | nil       =>
    cases hp
    exact hsingle
  | cons t rest =>
    obtain ⟨tok, i⟩ := t
    cases tok with
    | ident _ | number _ | string _ | dot | lparen | rparen | eof =>
      cases hp
      exact hsingle
    | op symbol =>
      dsimp only at hp
      split at hp
      case h_2 =>
        cases hp
        exact hsingle
      case h_1 op hop =>
        obtain ⟨⟨right, rest', hs'⟩, hright, hp⟩ := Except.bind_eq_ok_iff.mp hp
        cases hp
        obtain ⟨vs, hts', hvs⟩ := ih rest (by simp at hs; omega) _ hright
        refine ⟨us ++ (.op symbol, i) :: vs, ?_, ?_⟩
        · dsimp only at hts' ⊢
          rw [hts, List.append_assoc, List.cons_append, ← hts']
        · rw [List.map_append, List.map_cons]
          exact .compare hop hus hvs

theorem not_sound (ih : ∀ d, Sound .comparison d n (parse_comparison py text d)) :
    Sound .not d n (parse_not py text d) := by
  intro ts
  induction ts generalizing d with
  | nil =>
    intro hn p hp
    rw [parse_not.eq_2 _ _ _ _ (by simp)] at hp
    obtain ⟨us, hts, hus⟩ := ih d _ hn _ hp
    exact ⟨us, hts, .of_comparison hus⟩
  | cons t ts ihts =>
    intro hn p hp
    by_cases ht : t.fst = .op .not
    case neg =>
      rw [parse_not.eq_2 _ _ _ _ (by rintro i rest ⟨⟩; exact ht rfl)] at hp
      obtain ⟨us, hts, hus⟩ := ih d _ hn _ hp
      exact ⟨us, hts, .of_comparison hus⟩
    case pos =>
      obtain ⟨_, i⟩ := t
      cases ht
      rw [parse_not] at hp
      obtain ⟨_, hdepth, hp⟩ := Except.bind_eq_ok_iff.mp hp
      obtain ⟨⟨node, rest, hs⟩, hnode, hp⟩ := Except.bind_eq_ok_iff.mp hp
      cases hp
      obtain ⟨us, hts, hus⟩ := ihts (Nat.le_of_succ_le hn) _ hnode
      exact ⟨(.op .not, i) :: us, congrArg _ hts, .not (enter_nesting_eq_ok_iff.mp hdepth) hus⟩

-- A loop over the operands of a connective, which goes on with the tree that it starts from.
structure Loop (symbol : Symbol) (join : Node → Node → Node)
    (operand : (ts : Tokens) → Except Error (Parsed ts.length))
    (f : Node → (ts : Tokens) → Except Error (Parsed (ts.length + 1))) : Prop where
  stop   : ∀ {node ts}, (peek ts).fst ≠ .op symbol → Returns (f node ts) node ts
  step   : ∀ {node i ts right rest tree last}, Returns (operand ts) right rest →
    Returns (f (join node right) rest) tree last →
    Returns (f node ((.op symbol, i) :: ts)) tree last
  unstep : ∀ {node i ts p}, f node ((.op symbol, i) :: ts) = .ok p →
    ∃ q q', operand ts = .ok q ∧ f (join node q.node) q.rest = .ok q' ∧ p.node = q'.node ∧
      p.rest = q'.rest
  raises : ∀ {node i ts e}, f node ((.op symbol, i) :: ts) = .error e →
    operand ts = .error e ∨ ∃ q, operand ts = .ok q ∧ f (join node q.node) q.rest = .error e

theorem and_loop_spec : Loop .and .and (parse_not py text d) (and_loop py text d) where
  stop {node ts} h := by
    rw [and_loop.eq_2 _ _ _ _ _ (by rintro i rest rfl; exact h rfl)]
    exact ⟨Nat.lt_succ_self _, rfl⟩
  step {node i ts right rest tree last} h h' := by
    obtain ⟨hs, hright⟩ := h
    obtain ⟨hs', hloop⟩ := h'
    rw [and_loop, hright]
    dsimp only [bind, Except.bind]
    rw [hloop]
    exact ⟨_, rfl⟩
  unstep {node i ts p} h := by
    rw [and_loop] at h
    obtain ⟨⟨right, rest, hs⟩, hright, h⟩ := Except.bind_eq_ok_iff.mp h
    obtain ⟨⟨tree, rest', hs'⟩, hloop, h⟩ := Except.bind_eq_ok_iff.mp h
    cases h
    exact ⟨_, _, hright, hloop, rfl, rfl⟩
  raises {node i ts e} h := by
    rw [and_loop] at h
    obtain h | ⟨q, hq, h⟩ := Except.bind_eq_error_iff.mp h
    · exact .inl h
    · obtain h | ⟨q', -, h⟩ := Except.bind_eq_error_iff.mp h
      · exact .inr ⟨q, hq, h⟩
      · cases h

theorem or_loop_spec : Loop .or .or (parse_and py text d) (or_loop py text d) where
  stop {node ts} h := by
    rw [or_loop.eq_2 _ _ _ _ _ (by rintro i rest rfl; exact h rfl)]
    exact ⟨Nat.lt_succ_self _, rfl⟩
  step {node i ts right rest tree last} h h' := by
    obtain ⟨hs, hright⟩ := h
    obtain ⟨hs', hloop⟩ := h'
    rw [or_loop, hright]
    dsimp only [bind, Except.bind]
    rw [hloop]
    exact ⟨_, rfl⟩
  unstep {node i ts p} h := by
    rw [or_loop] at h
    obtain ⟨⟨right, rest, hs⟩, hright, h⟩ := Except.bind_eq_ok_iff.mp h
    obtain ⟨⟨tree, rest', hs'⟩, hloop, h⟩ := Except.bind_eq_ok_iff.mp h
    cases h
    exact ⟨_, _, hright, hloop, rfl, rfl⟩
  raises {node i ts e} h := by
    rw [or_loop] at h
    obtain h | ⟨q, hq, h⟩ := Except.bind_eq_error_iff.mp h
    · exact .inl h
    · obtain h | ⟨q', -, h⟩ := Except.bind_eq_error_iff.mp h
      · exact .inr ⟨q, hq, h⟩
      · cases h

theorem Loop.sound {symbol join operand f} {rule inner : Rule} (hf : Loop symbol join operand f)
    (ho : Sound inner d n operand)
    (hjoin : ∀ {xs ys a b}, Derives Segment rule d xs a → Derives Segment inner d ys b →
      Derives Segment rule d (xs ++ .op symbol :: ys) (join a b))
    {us ts node p} (hn : ts.length ≤ n) (hus : Derives Segment rule d us node)
    (hp : f node ts = .ok p) :
    ∃ vs, ts = vs ++ p.rest ∧ Derives Segment rule d (us ++ vs.map Prod.fst) p.node := by
  by_cases ht : (peek ts).fst = .op symbol
  case neg =>
    obtain ⟨h, hstop⟩ : Returns (f node ts) node ts := hf.stop ht
    rw [hp] at hstop
    cases hstop
    exact ⟨[], rfl, by rwa [List.map_nil, List.append_nil]⟩
  case pos =>
    match ts with
    | []           => cases ht
    | (_, i) :: ts =>
      cases ht
      rw [List.length_cons] at hn
      obtain ⟨q, q', hright, hloop, hnode, hrest⟩ := hf.unstep hp
      obtain ⟨vs, hts, hvs⟩ := ho ts (by omega) _ hright
      have hq := q.shorter
      obtain ⟨ws, hws, hd⟩ := hf.sound ho hjoin (by omega) (hjoin hus hvs) hloop
      refine ⟨(.op symbol, i) :: (vs ++ ws), ?_, ?_⟩
      · rw [hrest, List.cons_append, List.append_assoc, ← hws, ← hts]
      · simpa [hnode] using hd
termination_by ts.length

theorem and_sound (ih : Sound .not d n (parse_not py text d)) :
    Sound .and d n (parse_and py text d) := by
  intro ts hn p hp
  rw [parse_and] at hp
  obtain ⟨⟨node, rest, hs⟩, hnode, hp⟩ := Except.bind_eq_ok_iff.mp hp
  obtain ⟨⟨tree, rest', hs'⟩, hloop, hp⟩ := Except.bind_eq_ok_iff.mp hp
  cases hp
  obtain ⟨us, hts, hus⟩ := ih ts hn _ hnode
  obtain ⟨vs, hrest, hvs⟩ := and_loop_spec.sound ih .and (by omega) (.of_not hus) hloop
  refine ⟨us ++ vs, ?_, ?_⟩
  · dsimp only at hts hrest ⊢
    rw [hts, hrest, List.append_assoc]
  · rwa [List.map_append]

theorem or_sound (ih : Sound .and d n (parse_and py text d)) :
    Sound .or d n (parse_or py text d) := by
  intro ts hn p hp
  rw [parse_or] at hp
  obtain ⟨⟨node, rest, hs⟩, hnode, hp⟩ := Except.bind_eq_ok_iff.mp hp
  obtain ⟨⟨tree, rest', hs'⟩, hloop, hp⟩ := Except.bind_eq_ok_iff.mp hp
  cases hp
  obtain ⟨us, hts, hus⟩ := ih ts hn _ hnode
  obtain ⟨vs, hrest, hvs⟩ := or_loop_spec.sound ih .or (by omega) (.of_and hus) hloop
  refine ⟨us ++ vs, ?_, ?_⟩
  · dsimp only at hts hrest ⊢
    rw [hts, hrest, List.append_assoc]
  · rwa [List.map_append]

theorem parse_or_sound (d : ℕ) : Sound .or d n (parse_or py text d) := by
  induction n using Nat.strong_induction_on generalizing d with
  | _ n ih =>
    exact or_sound <| and_sound <| not_sound fun _ => comparison_sound <| primary_sound ih

-- The tokens that may follow a rule without being taken for a part of it.
def Follows : Rule → Tokens → Prop
  | .primary, ts =>
    (peek ts).fst ≠ .dot
  | .comparison, ts | .not, ts | .and, ts =>
    (peek ts).fst ≠ .dot ∧ ∀ s, (peek ts).fst = .op s → s.comparison? = none
  | .or, ts =>
    (peek ts).fst ≠ .dot ∧ (∀ s, (peek ts).fst = .op s → s.comparison? = none) ∧
      (peek ts).fst ≠ .op .and

theorem follows_or {i ts} : Follows .or ((.op .or, i) :: ts) := by
  simp [Follows, peek, Symbol.comparison?]

theorem follows_and {i ts} : Follows .and ((.op .and, i) :: ts) := by
  simp [Follows, peek, Symbol.comparison?]

theorem follows_op {symbol i ts} : Follows .primary ((.op symbol, i) :: ts) := by
  simp [Follows, peek]

theorem follows_rparen {i ts} : Follows .or ((.rparen, i) :: ts) := by
  simp [Follows, peek]

-- The parser of a rule returns a tree and the tokens after it. A connective is left to the loop
-- over its operands.
def Parses (py : Python) (text : List Char) (d : ℕ) : Rule → Tokens → Node → Tokens → Prop
  | .primary, ts, node, rest    => Returns (parse_primary py text d ts) node rest
  | .comparison, ts, node, rest => Returns (parse_comparison py text d ts) node rest
  | .not, ts, node, rest        => Returns (parse_not py text d ts) node rest
  | .and, ts, node, rest        => ∀ tree last, Returns (and_loop py text d node rest) tree last →
    Returns (parse_and py text d ts) tree last
  | .or, ts, node, rest         => ∀ tree last, Returns (or_loop py text d node rest) tree last →
    Returns (parse_or py text d ts) tree last

theorem Segment.not_hidden {x : String} (h : Segment x) : ¬ x.startsWith "_" := by
  rw [h.visible]
  exact Bool.false_ne_true

theorem parse_segments_complete {segments us rest}
    (hus : us.map Prod.fst = segments.flatMap fun x => [.dot, .ident x])
    (h : ∀ x ∈ segments, Segment x) (hrest : (peek rest).fst ≠ .dot) :
    ∃ h, parse_segments py text (us ++ rest) = .ok (segments, ⟨rest, h⟩) := by
  induction segments generalizing us with
  | nil             =>
    rw [List.map_eq_nil_iff.mp hus, List.nil_append, parse_segments.eq_3 _ _ _ ?_ ?_]
    · exact ⟨le_rfl, rfl⟩
    · rintro i name j ts rfl
      exact hrest rfl
    · rintro i ts rfl
      exact hrest rfl
  | cons x segments ih =>
    obtain ⟨⟨_, i⟩, us₁, rfl, ⟨⟩, hus₁⟩ := List.map_eq_cons_iff.mp hus
    obtain ⟨⟨_, j⟩, us₂, rfl, ⟨⟩, hus₂⟩ := List.map_eq_cons_iff.mp hus₁
    obtain ⟨hx, hsegments⟩ := List.forall_mem_cons.mp h
    obtain ⟨hle, hih⟩ := ih hus₂ hsegments
    rw [List.cons_append, List.cons_append, parse_segments, if_neg hx.not_hidden,
      if_neg hx.reserved, hih]
    exact ⟨_, rfl⟩

theorem field_segment {name field} (h : field? name = some field) : Segment name := by
  unfold field? at h
  split at h
  case h_7 => cases h
  all_goals exact ⟨by unfold Visible; decide +kernel, by decide⟩

theorem parse_path_complete {name field segments us rest} (hname : field? name = some field)
    (hus : us.map Prod.fst = segments.flatMap fun x => [.dot, .ident x])
    (h : ∀ x ∈ segments, Segment x) (hrest : (peek rest).fst ≠ .dot) :
    ∃ h, parse_path py text name (us ++ rest) = .ok (.path field segments, ⟨rest, h⟩) := by
  obtain ⟨hle, hsegments⟩ := parse_segments_complete hus h hrest
  rw [parse_path, if_neg (field_segment hname).not_hidden, hname]
  dsimp only
  rw [hsegments]
  exact ⟨hle, rfl⟩

theorem Returns.and {ts a rest tree last} (h : Returns (parse_not py text d ts) a rest)
    (h' : Returns (and_loop py text d a rest) tree last) :
    Returns (parse_and py text d ts) tree last := by
  obtain ⟨hs, hnode⟩ := h
  obtain ⟨hs', hloop⟩ := h'
  rw [parse_and, hnode]
  dsimp only [bind, Except.bind]
  rw [hloop]
  exact ⟨_, rfl⟩

theorem Returns.or {ts a rest tree last} (h : Returns (parse_and py text d ts) a rest)
    (h' : Returns (or_loop py text d a rest) tree last) :
    Returns (parse_or py text d ts) tree last := by
  obtain ⟨hs, hnode⟩ := h
  obtain ⟨hs', hloop⟩ := h'
  rw [parse_or, hnode]
  dsimp only [bind, Except.bind]
  rw [hloop]
  exact ⟨_, rfl⟩

theorem Returns.not {ts i a rest} (hd : d < max_nesting_depth)
    (h : Returns (parse_not py text (d + 1) ts) a rest) :
    Returns (parse_not py text d ((.op .not, i) :: ts)) (.not a) rest := by
  obtain ⟨hs, hnode⟩ := h
  rw [parse_not, enter_nesting_eq_ok_iff.mpr hd]
  dsimp only [bind, Except.bind]
  rw [hnode]
  exact ⟨_, rfl⟩

theorem Returns.group {ts i j a rest} (hd : d < max_nesting_depth)
    (h : Returns (parse_or py text (d + 1) ts) a ((.rparen, j) :: rest)) :
    Returns (parse_primary py text d ((.lparen, i) :: ts)) a rest := by
  obtain ⟨hs, hnode⟩ := h
  rw [parse_primary, enter_nesting_eq_ok_iff.mpr hd]
  dsimp only [bind, Except.bind]
  rw [hnode]
  exact ⟨_, rfl⟩

theorem Returns.comparison {ts a rest} (h : Returns (parse_primary py text d ts) a rest)
    (hrest : ∀ s, (peek rest).fst = .op s → s.comparison? = none) :
    Returns (parse_comparison py text d ts) a rest := by
  obtain ⟨hs, hnode⟩ := h
  rw [parse_comparison, hnode]
  dsimp only [bind, Except.bind]
  cases rest with
  | nil       => exact ⟨hs, rfl⟩
  | cons t rest =>
    obtain ⟨tok, i⟩ := t
    cases tok with
    | op symbol =>
      dsimp only
      rw [hrest symbol rfl]
      exact ⟨hs, rfl⟩
    | ident _ | number _ | string _ | dot | lparen | rparen | eof => exact ⟨hs, rfl⟩

theorem Returns.compare {ts a b symbol op i us rest} (hop : symbol.comparison? = some op)
    (h : Returns (parse_primary py text d ts) a ((.op symbol, i) :: us))
    (h' : Returns (parse_primary py text d us) b rest) :
    Returns (parse_comparison py text d ts) (.compare op a b) rest := by
  obtain ⟨hs, hleft⟩ := h
  obtain ⟨hs', hright⟩ := h'
  rw [parse_comparison, hleft]
  dsimp only [bind, Except.bind]
  rw [hop]
  dsimp only
  rw [hright]
  exact ⟨_, rfl⟩

-- What begins a comparison is no negation.
theorem Returns.of_comparison {ts a rest} (h : Returns (parse_comparison py text d ts) a rest) :
    Returns (parse_not py text d ts) a rest := by
  obtain ⟨hs, hnode⟩ := h
  rw [parse_not.eq_2 _ _ _ _ ?_]
  · exact ⟨hs, hnode⟩
  · rintro i us rfl
    simp [parse_comparison, parse_primary, bind, Except.bind] at hnode

theorem Derives.parses {rule xs node} (h : Derives Segment rule d xs node) :
    ∀ us rest, us.map Prod.fst = xs → Follows rule rest →
      Parses py text d rule (us ++ rest) node rest := by
  induction h with
  | or _ _ ih ih'                  =>
    intro us rest hus hrest tree last h
    obtain ⟨us, vs, rfl, hl, hr⟩ := List.map_eq_append_iff.mp hus
    obtain ⟨⟨_, i⟩, vs, rfl, ⟨⟩, hvs⟩ := List.map_eq_cons_iff.mp hr
    have hright := ih' vs rest hvs ⟨hrest.left, hrest.right.left⟩ _ _ <|
      and_loop_spec.stop hrest.right.right
    rw [List.append_assoc]
    exact ih us _ hl follows_or _ _ <| or_loop_spec.step hright h
  | of_and _ ih                    =>
    intro us rest hus hrest tree last h
    have hleft := ih us rest hus ⟨hrest.left, hrest.right.left⟩ _ _ <|
      and_loop_spec.stop hrest.right.right
    exact hleft.or h
  | and _ _ ih ih'                 =>
    intro us rest hus hrest tree last h
    obtain ⟨us, vs, rfl, hl, hr⟩ := List.map_eq_append_iff.mp hus
    obtain ⟨⟨_, i⟩, vs, rfl, ⟨⟩, hvs⟩ := List.map_eq_cons_iff.mp hr
    have hright := ih' vs rest hvs hrest
    rw [List.append_assoc]
    exact ih us _ hl follows_and _ _ <| and_loop_spec.step hright h
  | of_not _ ih                    =>
    intro us rest hus hrest tree last h
    exact Returns.and (ih us rest hus hrest) h
  | not hd _ ih                    =>
    intro us rest hus hrest
    obtain ⟨⟨_, i⟩, us, rfl, ⟨⟩, hus'⟩ := List.map_eq_cons_iff.mp hus
    exact Returns.not hd (ih us rest hus' hrest)
  | of_comparison _ ih             =>
    intro us rest hus hrest
    exact Returns.of_comparison (ih us rest hus hrest)
  | compare hop _ _ ih ih'         =>
    intro us rest hus hrest
    obtain ⟨us, vs, rfl, hl, hr⟩ := List.map_eq_append_iff.mp hus
    obtain ⟨⟨_, i⟩, vs, rfl, ⟨⟩, hvs⟩ := List.map_eq_cons_iff.mp hr
    rw [List.append_assoc]
    exact Returns.compare hop (ih us _ hl follows_op) (ih' vs rest hvs hrest.left)
  | of_primary _ ih                =>
    intro us rest hus hrest
    exact Returns.comparison (ih us rest hus hrest.left) hrest.right
  | number | string                =>
    intro us rest hus hrest
    obtain ⟨⟨_, i⟩, rfl, ⟨⟩⟩ := List.map_eq_singleton_iff.mp hus
    rw [Parses, List.singleton_append, parse_primary]
    exact ⟨_, rfl⟩
  | true | false | null            =>
    intro us rest hus hrest
    obtain ⟨⟨_, i⟩, rfl, ⟨⟩⟩ := List.map_eq_singleton_iff.mp hus
    rw [Parses, List.singleton_append, parse_primary]
    exact ⟨_, rfl⟩
  | path hname hsegments           =>
    intro us rest hus hrest
    obtain ⟨⟨name, i⟩, us, rfl, ⟨⟩, hus'⟩ := List.map_eq_cons_iff.mp hus
    have hreserved := (field_segment hname).reserved
    simp only [List.mem_cons, List.not_mem_nil, or_false, not_or] at hreserved
    obtain ⟨_, hpath⟩ := parse_path_complete hname hus' hsegments hrest
    rw [Parses, List.cons_append, parse_primary, if_neg hreserved.left,
      if_neg hreserved.right.left, if_neg hreserved.right.right, hpath]
    exact ⟨_, rfl⟩
  | group hd _ ih                  =>
    intro us rest hus hrest
    obtain ⟨⟨_, i⟩, us, rfl, ⟨⟩, hus'⟩ := List.map_eq_cons_iff.mp hus
    obtain ⟨us, vs, rfl, hl, hr⟩ := List.map_eq_append_iff.mp hus'
    obtain ⟨⟨_, j⟩, rfl, ⟨⟩⟩ := List.map_eq_singleton_iff.mp hr
    rw [List.cons_append, List.append_assoc]
    exact Returns.group hd <| ih us _ hl follows_rparen _ _ <| or_loop_spec.stop Token.noConfusion

theorem Derives.eof_not_mem {ident rule xs node} (h : Derives ident rule d xs node) :
    .eof ∉ xs := by
  induction h with
  | or _ _ ih ih' | and _ _ ih ih' | compare _ _ _ ih ih' => simp [ih, ih']
  | not _ _ ih | group _ _ ih                             => simp [ih]
  | of_and _ ih | of_not _ ih | of_comparison _ ih | of_primary _ ih => exact ih
  | number | string | true | false | null                 => simp
  | path                                                  => simp

theorem sentence_append {us rest : Tokens} (h : .eof ∉ us.map Prod.fst)
    (hrest : (peek rest).fst = .eof) : sentence (us ++ rest) = us.map Prod.fst := by
  have hus : ∀ t ∈ us.map Prod.fst, decide (t ≠ .eof) := by
    intro t ht
    exact decide_eq_true fun he => h (he ▸ ht)
  unfold sentence
  rw [List.map_append, List.takeWhile_append_of_pos hus]
  cases rest with
  | nil       => rw [List.map_nil, List.takeWhile_nil, List.append_nil]
  | cons t rest =>
    obtain ⟨_, _⟩ := t
    cases hrest
    rw [List.map_cons, List.takeWhile_cons_of_neg (by simp), List.append_nil]

theorem exists_sentence (ts : Tokens) :
    ∃ us rest, ts = us ++ rest ∧ us.map Prod.fst = sentence ts ∧ (peek rest).fst = .eof := by
  refine ⟨ts.takeWhile (·.fst ≠ .eof), ts.dropWhile (·.fst ≠ .eof), ?_, ?_, ?_⟩
  · exact List.takeWhile_append_dropWhile.symm
  · rw [sentence, List.takeWhile_map]
    rfl
  · induction ts with
    | nil         => rfl
    | cons t ts ih =>
      rw [List.dropWhile_cons]
      split
      case isTrue   => exact ih
      case isFalse h => exact of_not_not fun he => h (decide_eq_true he)

-- The parser accepts what the grammar derives, and returns the tree it stands for.
theorem parse_eq_ok_iff {ts node} :
    parse py text ts = .ok node ↔ Derives Segment .or 0 (sentence ts) node := by
  constructor
  case mp =>
    intro h
    obtain ⟨⟨tree, rest, hs⟩, hor, h⟩ := Except.bind_eq_ok_iff.mp h
    obtain ⟨us, hts, hus⟩ := parse_or_sound 0 ts le_rfl _ hor
    dsimp only at h hts
    split at h
    case isFalse   => cases h
    case isTrue he =>
      cases h
      rwa [hts, sentence_append hus.eof_not_mem he]
  case mpr =>
    intro h
    obtain ⟨us, rest, rfl, hus, he⟩ := exists_sentence ts
    have hrest : Follows .or rest := by simp [Follows, he]
    have hstop : Returns (or_loop py text 0 node rest) node rest :=
      or_loop_spec.stop <| by simp [he]
    obtain ⟨hs, hor⟩ := h.parses us rest hus hrest _ _ hstop
    rw [parse, hor]
    dsimp only [bind, Except.bind]
    rw [if_pos he]
    rfl

end Parser

namespace Node

-- The paths of a tree have segments of the grammar.
def Admissible (ident : String → Prop) : Node → Prop
  | .literal _           => True
  | .path _ segments     => ∀ x ∈ segments, ident x
  | .compare _ left right
  | .and left right
  | .or left right       => left.Admissible ident ∧ right.Admissible ident
  | .not child           => child.Admissible ident

end Node

theorem Derives.admissible {ident rule d xs node} (h : Derives ident rule d xs node) :
    node.Admissible ident := by
  induction h with
  | or _ _ ih ih' | and _ _ ih ih' | compare _ _ _ ih ih'            => exact ⟨ih, ih'⟩
  | of_and _ ih | of_not _ ih | of_comparison _ ih | of_primary _ ih => exact ih
  | not _ _ ih | group _ _ ih                                        => exact ih
  | number | string | true | false | null                            => trivial
  | path _ h                                                         => exact h

theorem field?_name (field : Field) : field? field.name = some field := by
  cases field <;> rfl

theorem Op.comparison?_symbol (op : Op) : op.symbol.comparison? = some op := by
  cases op <;> rfl

section Print

variable {ident : String → Prop} {d : ℕ} {node : Node}

theorem Node.Admissible.derives_atom (h : node.Admissible ident) (ha : node.atomic = true) :
    Derives ident .primary d node.print node := by
  cases node with
  | compare | and | or | not => cases ha
  | path field segments      => exact .path (field?_name field) h
  | literal value            =>
    cases value with
    | str value                 => exact .string
    | null                      => exact .null
    | int | float | arr | obj   => exact .number
    | bool value                =>
      cases value with
      | true  => exact .true
      | false => exact .false

theorem Node.Admissible.derives_operand (h : node.Admissible ident)
    (ih : ∀ d, node.levels + d ≤ max_nesting_depth → Derives ident .or d node.print node)
    (hd : node.levels + node.atomic.not.toNat + d ≤ max_nesting_depth) :
    Derives ident .primary d (Node.enclose node.atomic node.print) node := by
  cases ha : node.atomic with
  | true  => exact h.derives_atom ha
  | false =>
    rw [ha, Bool.not_false, Bool.toNat_true] at hd
    exact .group (by omega) (ih (d + 1) (by omega))

-- A tree that is printed within the cap is derived from what is printed.
theorem Node.Admissible.derives_print (h : node.Admissible ident)
    (hd : node.levels + d ≤ max_nesting_depth) : Derives ident .or d node.print node := by
  induction node generalizing d with
  | literal | path           =>
    exact .of_and <| .of_not <| .of_comparison <| .of_primary <| h.derives_atom rfl
  | compare op left right ih ih' =>
    rw [Node.levels] at hd
    have hl := h.left.derives_operand (d := d) (fun _ => ih h.left) (by omega)
    have hr := h.right.derives_operand (d := d) (fun _ => ih' h.right) (by omega)
    exact .of_and <| .of_not <| .of_comparison <| .compare op.comparison?_symbol hl hr
  | and left right ih ih'        =>
    rw [Node.levels] at hd
    have hl := h.left.derives_operand (d := d) (fun _ => ih h.left) (by omega)
    have hr := h.right.derives_operand (d := d) (fun _ => ih' h.right) (by omega)
    exact .of_and <| .and (.of_not <| .of_comparison <| .of_primary hl)
      (.of_comparison <| .of_primary hr)
  | or left right ih ih'         =>
    rw [Node.levels] at hd
    have hl := h.left.derives_operand (d := d) (fun _ => ih h.left) (by omega)
    have hr := h.right.derives_operand (d := d) (fun _ => ih' h.right) (by omega)
    exact .or (.of_and <| .of_not <| .of_comparison <| .of_primary hl)
      (.of_not <| .of_comparison <| .of_primary hr)
  | not child ih                 =>
    rw [Node.levels] at hd
    have ha : child.Admissible ident := h
    have hc := ha.derives_operand (d := d + 1) (fun _ => ih ha) (by omega)
    exact .of_and <| .of_not <| .not (by omega) (.of_comparison <| .of_primary hc)

end Print

-- The parser accepts exactly the grammar in which no segment of a path is a reserved word. The
-- tree it returns is the only one derived, and it is read again off its printed form.
theorem parse_accepts_grammar (py : Python) (text : List Char) (ts : Tokens) :
    ((∃ node, parse py text ts = .ok node) ↔ ∃ node, Derives Segment .or 0 (sentence ts) node) ∧
    ∀ node, parse py text ts = .ok node →
      Derives Segment .or 0 (sentence ts) node ∧
      (∀ node', Derives Segment .or 0 (sentence ts) node' → node' = node) ∧
      (node.levels ≤ max_nesting_depth → ∀ text' ts', sentence ts' = node.print →
        parse py text' ts' = .ok node) := by
  refine ⟨exists_congr fun _ => parse_eq_ok_iff, fun node hparse => ?_⟩
  have h := parse_eq_ok_iff.mp hparse
  refine ⟨h, fun node' h' => ?_, fun hlevels text' ts' hts => ?_⟩
  · have hparse' : parse py text ts = .ok node' := parse_eq_ok_iff.mpr h'
    rw [hparse] at hparse'
    exact (Except.ok.inj hparse').symm
  · rw [parse_eq_ok_iff, hts]
    exact h.admissible.derives_print hlevels

-- The path `payload.true` is of the grammar as it is documented.
theorem reserved_segment_rejected :
    let ts : Tokens := [(.ident "payload", 0), (.dot, 7), (.ident "true", 8), (.eof, 12)]
    Derives Visible .or 0 (sentence ts) (.path .payload ["true"]) ∧
      ∀ py text node, parse py text ts ≠ .ok node := by
  intro ts
  constructor
  case left  =>
    have hvisible : ∀ x ∈ ["true"], Visible x := by simp [Visible]
    have hpath : Derives Visible .primary 0 (sentence ts) (.path .payload ["true"]) :=
      .path rfl hvisible
    exact .of_and <| .of_not <| .of_comparison <| .of_primary hpath
  case right =>
    intro py text node h
    simp [ts, parse, parse_or, parse_and, parse_not, parse_comparison, parse_primary, parse_path,
      parse_segments, field?, bind, Except.bind] at h

end Predicates
