import IssueMarkdown.Proofs.Arguments

/-! # Where a setting of rendering is given

A setting may be given as an option, before a command or after it at any level, or by a variable of
the environment. The outcome is the same, unless the value looks like an option itself: then it is
taken for one, and the arguments are rejected.
-/

namespace IssueMarkdown.CommandLine

open Progress Invocation

variable {env : Environment} {w : World} {l : Level} {p p' q : Progress} {g : Given}
  {i : Invocation} {s : Setting} {v t : Text} {a b ts : List Text}

/-! ## The option at one place -/

namespace Progress

/-- The second reading is the first, but that it was given a value of a setting. -/
structure Ahead (l : Level) (s : Setting) (v : Text) (p p' : Progress) : Prop where
  trailing : p'.trailing = p.trailing
  settle : ∃ g, p.settle l = .ok g ∧ g.value? s = none ∧ p'.settle l = .ok (g.put s v)

theorem Ahead.takePlain (ha : Ahead l s v p p') (h : p.takePlain l t = .ok q)
    (hs : ∃ g, q.settle l = .ok g) : ∃ q', p'.takePlain l t = .ok q' ∧ Ahead l s v q q' := by
  obtain ⟨g, hg, hv, hg'⟩ := ha.settle
  rw [takePlain_of_settle hg] at h
  rw [takePlain_of_settle hg', Given.operand_put, ha.trailing]
  split_ifs at h ⊢ with room
  obtain rfl := Except.ok.inj h
  refine ⟨_, rfl, rfl, ?_⟩
  obtain ⟨g₁, hg₁⟩ := hs
  simp only [Progress.settle, Pending.settle] at hg₁ ⊢
  split_ifs at hg₁ ⊢ with empty
  exact ⟨_, rfl, by cases s <;> exact hv, by cases s <;> rfl⟩

theorem Ahead.choose {c : Choice} {value : Option Text} (ha : Ahead l s v p p')
    (h : p.choose l c value = .ok q) (hq : q.Plain) :
    ∃ q', p'.choose l c value = .ok q' ∧ Ahead l s v q q' := by
  obtain ⟨g, hg, hv, hg'⟩ := ha.settle
  rcases c with _ | _ | s' | x <;> rcases value with _ | v' <;>
    simp only [Progress.choose, hg, hg', bind, Except.bind, pure, Except.pure, throw, throwThe,
      MonadExceptOf.throw, Given.addSetting_eq, Given.addSwitch_eq, Given.isOn_put,
      reduceCtorEq] at h ⊢
  · -- an option for a setting would leave the level with one
    obtain rfl := Except.ok.inj h
    exact absurd (.inr (.inl rfl)) (hq s')
  · split_ifs at h
    obtain rfl := Except.ok.inj h
    exact absurd (.inl (by simp [Given.value?_put])) (hq s')
  · split_ifs at h ⊢
    obtain rfl := Except.ok.inj h
    exact ⟨_, rfl, ha.trailing, g.turnOn x, rfl, by simpa using hv, by rw [← Given.turnOn_put]; rfl⟩

/-- The value of a setting changes nothing about what else is read. -/
theorem Ahead.take (ha : Ahead l s v p p') (h : p.take l t = .ok q) (hq : q.Plain)
    (hs : ∃ g, q.settle l = .ok g) : ∃ q', p'.take l t = .ok q' ∧ Ahead l s v q q' := by
  unfold Progress.take at h ⊢
  rw [ha.trailing]
  split at h
  · next hp =>
    rw [if_pos hp]
    exact ha.takePlain h hs
  next hp =>
  rw [if_neg hp]
  cases hk : Token.ofText t with
  | separator =>
    rw [hk] at h
    obtain rfl := Except.ok.inj h
    exact ⟨_, rfl, rfl, ha.settle⟩
  | long name value =>
    rw [hk] at h
    dsimp only at h ⊢
    cases hc : l.choices.lookup name with
    | none => exact absurd h (by simp [hc])
    | some c => exact ha.choose (by simpa [hc] using h) hq
  | short letter =>
    rw [hk] at h
    dsimp only at h ⊢
    cases hc : l.short? letter with
    | none => exact absurd h (by simp [hc])
    | some c => exact ha.choose (by simpa [hc] using h) hq
  | plain =>
    rw [hk] at h
    exact ha.takePlain h hs

end Progress

/-- Read ahead, arguments that give no setting give the one that was put in. -/
theorem parseFrom_ahead (ha : Ahead l s v p p') (hi : i.Bare) (h : parseFrom env l p ts = .ok i) :
    parseFrom env l p' ts = .ok (i.put s (some (.commandLine, v))) := by
  induction ts generalizing p p' i with
  | nil =>
    obtain ⟨g, hg, -, hg'⟩ := ha.settle
    obtain ⟨g₀, hg₀, hG, hc⟩ := parseFrom_nil_eq_ok_iff.mp h
    obtain rfl := Except.ok.inj (hg.symm.trans hg₀)
    exact parseFrom_nil_eq_ok_iff.mpr
      ⟨_, hg', Globals.ofGiven_put hG s v, Level.command_put hc s v _⟩
  | cons t ts ih =>
    obtain ⟨g, hg, -, hg'⟩ := ha.settle
    have reads : (p'.trailing || p'.awaits) = (p.trailing || p.awaits) := by
      rw [ha.trailing, awaits_of_settle hg, awaits_of_settle hg']
    rcases parseFrom_cons_cases h with ⟨k, i₀, g₀, G, hp, hk, hg₀, hG, h₀, rfl⟩ | ⟨q, ht, hq, h⟩
    · -- the level inside has no value of its own that could hide this one
      obtain rfl := Except.ok.inj (hg.symm.trans hg₀)
      rw [parseFrom_cons_of_child (reads.trans hp) hk hg' (Globals.ofGiven_put hG s v), h₀]
      exact congrArg Except.ok (hi.of_within.within_put G s v)
    · have hqp := hi.plain h
      obtain ⟨q', hq', ha'⟩ := ha.take hq hqp (hqp.exists_settle h)
      rw [parseFrom_cons_of_take (reads ▸ ht), hq']
      exact ih ha' hi h

theorem parseFrom_option (hp : p.trailing = false) (hg : p.settle l = .ok g) (ts : List Text) :
    parseFrom env l p (s.option :: ts) =
      parseFrom env l { p with given := g, pending := .awaiting s } ts := by
  have awaiting : p.take l s.option = .ok { p with given := g, pending := .awaiting s } := by
    simp only [take, hp, Bool.false_eq_true, if_false, Setting.ofText_option,
      Setting.lookup_choices, choose, hg, bind, Except.bind, pure, Except.pure]
  rw [parseFrom_cons_of_take (.inr ⟨s.child?_option l, s.isHelp_option l⟩), awaiting]
  rfl

/-- An option and a value that has not the looks of one are taken as such. -/
theorem parseFrom_option_value (hp : p.trailing = false) (hi : i.Bare)
    (h : parseFrom env l p b = .ok i) (hv : Token.ofText v = .plain) :
    parseFrom env l p (s.option :: v :: b) = .ok (i.put s (some (.commandLine, v))) := by
  have plain := hi.plain h
  obtain ⟨g, hg⟩ := plain.exists_settle h
  have value : take { p with given := g, pending := .awaiting s } l v =
      .ok { p with given := g, pending := .value s v } := by
    simp only [take, hp, Bool.false_eq_true, if_false, hv, takePlain]
  rw [parseFrom_option hp hg, parseFrom_cons_of_take (.inl (by simp [awaits, hp])), value]
  refine parseFrom_ahead (p := p) ⟨rfl, g, hg, plain.value? hg s, ?_⟩ hi h
  simp [settle, Pending.settle, Given.addSetting_eq, plain.value? hg s]

/-- An option whose value is due is not satisfied after a separator. -/
theorem parseFrom_ne_ok_of_trailing (hp : p.trailing = true) (hs : p.pending = .awaiting s) :
    parseFrom env l p ts ≠ .ok i := by
  have unsettled (g : Given) : p.settle l ≠ .ok g := by
    simp [settle, hs, Pending.settle]
  intro h
  cases ts with
  | nil =>
    obtain ⟨g, hg, -⟩ := parseFrom_nil_eq_ok_iff.mp h
    exact unsettled g hg
  | cons t ts =>
    rcases parseFrom_cons_cases h with ⟨k, i₀, g, G, -, -, hg, -⟩ | ⟨q, -, hq, -⟩
    · exact unsettled g hg
    · rcases take_cases hq with ⟨hp', -⟩ | ⟨hp', -⟩ | ⟨g, hg, -⟩
      · exact absurd (hp.symm.trans hp') (by simp)
      · exact absurd (hp.symm.trans hp') (by simp)
      · exact unsettled g hg

/-- An option that holds its value is taken as such, whatever the value looks like. -/
theorem parseFrom_joined (hp : p.trailing = false) (hi : i.Bare)
    (h : parseFrom env l p b = .ok i) :
    parseFrom env l p (s.joined v :: b) = .ok (i.put s (some (.commandLine, v))) := by
  have plain := hi.plain h
  obtain ⟨g, hg⟩ := plain.exists_settle h
  have taken : p.take l (s.joined v) = .ok { p with given := g.put s v, pending := .nothing } := by
    simp [take, hp, Setting.ofText_joined, Setting.lookup_choices, choose, hg, bind, Except.bind,
      pure, Except.pure, Given.addSetting_eq, plain.value? hg s]
  rw [parseFrom_cons_of_take (.inr ⟨s.child?_joined v l, s.isHelp_joined v l⟩), taken]
  exact parseFrom_ahead (p := p) ⟨rfl, g, hg, plain.value? hg s, rfl⟩ hi h

/-- An option is not taken for the value of another. -/
theorem parseFrom_option_ne_ok (hp : p.trailing = false) (hg : p.settle l = .ok g)
    (hv : Token.ofText v ≠ .plain) : parseFrom env l p (s.option :: v :: b) ≠ .ok i := by
  rw [parseFrom_option hp hg]
  intro h
  rcases parseFrom_cons_cases h with ⟨k, i₀, g', G, hw, -⟩ | ⟨q, -, hq, h⟩
  · exact absurd hw (by simp [awaits, hp])
  · rcases take_cases hq with ⟨-, -, rfl⟩ | ⟨-, ht, -⟩ | ⟨g', hg', -⟩
    · exact parseFrom_ne_ok_of_trailing rfl rfl h
    · exact hv ht
    · exact absurd (awaits_of_settle hg') (by simp [awaits, hp])

/-! ## The option at any place -/

namespace Invocation

/-- The invocation of a level within several, the innermost of them first. -/
def withinAll (i : Invocation) (Gs : List Globals) : Invocation := Gs.foldl within i

theorem Bare.of_withinAll {Gs : List Globals} (h : (i.withinAll Gs).Bare) : i.Bare := by
  induction Gs generalizing i with
  | nil => exact h
  | cons G Gs ih => exact (ih h).of_within

theorem withinAll_append (i : Invocation) (Gs : List Globals) (G : Globals) :
    i.withinAll (Gs ++ [G]) = (i.withinAll Gs).within G :=
  List.foldl_append

theorem put_withinAll (i : Invocation) (Gs : List Globals) (s : Setting) (v : Text) :
    (i.put s (some (.commandLine, v))).withinAll Gs =
      (i.withinAll Gs).put s (some (.commandLine, v)) := by
  induction Gs generalizing i with
  | nil => rfl
  | cons G Gs ih => exact (congrArg (withinAll · Gs) (i.put_within G s v)).trans (ih _)

end Invocation

/-- Arguments before a separator lead to one level, and what is read there counts within the
levels around it. -/
theorem exists_forall_parseFrom_append (hp : p.trailing = false) (ha : "--".toList ∉ a)
    (h : parseFrom env l p (a ++ b) = .ok i) :
    ∃ k q Gs, q.trailing = false ∧ ∀ ts, parseFrom env l p (a ++ ts) =
      (parseFrom env k q ts).map (withinAll · Gs) := by
  induction a generalizing l p i with
  | nil =>
    refine ⟨l, p, [], hp, fun ts => ?_⟩
    rw [List.nil_append]
    cases parseFrom env l p ts <;> rfl
  | cons t a ih =>
    obtain ⟨ht, ha⟩ := not_or.mp (List.mem_cons.not.mp ha)
    rcases parseFrom_cons_cases h with ⟨k, i₀, g, G, hw, hk, hg, hG, h₀, -⟩ | ⟨q, hw, hq, h⟩
    · obtain ⟨k', q, Gs, hq, hr⟩ := ih (l := k) (p := {}) rfl ha h₀
      refine ⟨k', q, Gs ++ [G], hq, fun ts => ?_⟩
      rw [List.cons_append, parseFrom_cons_of_child hw hk hg hG, hr]
      cases parseFrom env k' q ts with
      | error e => rfl
      | ok j => exact congrArg Except.ok (j.withinAll_append Gs G).symm
    · have hqt : q.trailing = false := by
        rcases take_cases hq with ⟨-, ht', -⟩ | ⟨-, -, s, -, rfl⟩ | ⟨g, -, hqp, -⟩
        · exact absurd ht'.symm ht
        · exact hp
        · exact hqp.trans hp
      obtain ⟨k, q', Gs, hq', hr⟩ := ih hqt ha h
      refine ⟨k, q', Gs, hq', fun ts => ?_⟩
      rw [List.cons_append, parseFrom_cons_of_take hw, hq]
      exact hr ts

/-- What gives a setting at every level that it is read at gives it anywhere before a separator. -/
theorem parse_append_of_forall (ha : "--".toList ∉ a) (h : parse env (a ++ b) = .ok i)
    (hi : i.Bare) (ts : List Text)
    (gives : ∀ k q j, q.trailing = false → j.Bare → parseFrom env k q b = .ok j →
      parseFrom env k q (ts ++ b) = .ok (j.put s (some (.commandLine, v)))) :
    parse env (a ++ (ts ++ b)) = .ok (i.put s (some (.commandLine, v))) := by
  obtain ⟨k, q, Gs, hq, hr⟩ := exists_forall_parseFrom_append (p := {}) rfl ha h
  rw [parse, hr] at h ⊢
  rcases hj : parseFrom env k q b with e | j
  · simp [hj, Except.map] at h
  · rw [hj] at h
    obtain rfl := Except.ok.inj h
    rw [gives k q j hq hi.of_withinAll hj]
    exact congrArg Except.ok (j.put_withinAll Gs s v)

theorem parse_option_ne_ok (ha : "--".toList ∉ a) (h : parse env (a ++ b) = .ok i) (hi : i.Bare)
    (hv : Token.ofText v ≠ .plain) {j : Invocation} :
    parse env (a ++ s.option :: v :: b) ≠ .ok j := by
  obtain ⟨k, q, Gs, hq, hr⟩ := exists_forall_parseFrom_append (p := {}) rfl ha h
  rw [parse, hr] at h ⊢
  rcases hj : parseFrom env k q b with e | i'
  · simp [hj, Except.map] at h
  · rw [hj] at h
    obtain rfl := Except.ok.inj h
    obtain ⟨g, hg⟩ := (hi.of_withinAll.plain hj).exists_settle hj
    rcases hf : parseFrom env k q (s.option :: v :: b) with e | j'
    · exact nofun
    · exact absurd hf (parseFrom_option_ne_ok hq hg hv)

/-! ## The variable -/

/-- A variable counts as it would at every level. -/
theorem parseFrom_update (h : parseFrom env l p ts = .ok i) (hi : i.Bare) (s : Setting)
    (u : Option Text) :
    parseFrom (Function.update env s.source u) l p ts =
      .ok (i.put s (u.map (.environment, ·))) := by
  induction ts generalizing l p i with
  | nil =>
    have plain := hi.plain h
    obtain ⟨g, hg, hG, hc⟩ := parseFrom_nil_eq_ok_iff.mp h
    exact parseFrom_nil_eq_ok_iff.mpr ⟨g, hg, Globals.ofGiven_update hG (plain.value? hg s) u,
      Level.command_update hc s u _⟩
  | cons t ts ih =>
    have plain := hi.plain h
    rcases parseFrom_cons_cases h with ⟨k, i₀, g, G, hp, hk, hg, hG, h₀, rfl⟩ | ⟨q, ht, hq, h⟩
    · rw [parseFrom_cons_of_child hp hk hg (Globals.ofGiven_update hG (plain.value? hg s) u),
        ih h₀ hi.of_within]
      exact congrArg Except.ok (i₀.put_within_put G s _)
    · rw [parseFrom_cons_of_take ht, hq]
      exact ih h hi

/-! ## Runs -/

/-- The world with another value of one variable. -/
def World.assign (w : World) (s : Setting) (u : Option Text) : World :=
  { w with environment := Function.update w.environment s.source u }

theorem Command.run_assign (c : Command) (w : World) (s : Setting) (u : Option Text)
    (r : Rendering) : c.run (w.assign s u) r = c.run w r := by
  cases c <;> cases s <;> rfl

theorem trouble_runGet_ne_usage (w : World) (r : Rendering) (key : Text) (shape : Shape)
    (fail : Bool) (e : UsageError) : (runGet w r key shape fail).trouble ≠ some (.usage e) := by
  unfold runGet
  split
  · exact nofun
  · dsimp only
    split <;> exact nofun

theorem trouble_runConvert_ne_usage (w : World) (r : Rendering) (path : Option Text)
    (e : UsageError) : (runConvert w r path).trouble ≠ some (.usage e) := by
  unfold runConvert
  split <;> exact nofun

theorem trouble_runPing_ne_usage (w : World) (e : UsageError) :
    (runPing w).trouble ≠ some (.usage e) := by
  unfold runPing
  split
  · exact nofun
  · dsimp only
    split <;> exact nofun

/-- Arguments are rejected before a command runs, and not by it. -/
theorem Command.trouble_run_ne_usage (c : Command) (w : World) (r : Rendering) (e : UsageError) :
    (c.run w r).trouble ≠ some (.usage e) := by
  cases c with
  | get key shape fail => exact trouble_runGet_ne_usage w r key shape fail e
  | convert path => exact trouble_runConvert_ne_usage w r path e
  | ping => exact trouble_runPing_ne_usage w e

/-- Where the value of a setting comes from makes no difference to a run. -/
theorem Invocation.run_put_map (i : Invocation) (w : World) (s : Setting) (o o' : Origin)
    (v : Text) : (i.put s (some (o, v))).run w = (i.put s (some (o', v))).run w := by
  cases s <;> rfl

theorem Invocation.run_assign (i : Invocation) (w : World) (s : Setting) (u : Option Text) :
    i.run (w.assign s u) = i.run w := by
  rw [run, run, Command.run_assign]

section Run

variable (h : parse w.environment (a ++ b) = .ok i) (hi : i.Bare)

include h hi

/-- Arguments that give the value of a setting count as its variable does. -/
theorem run_eq_run_assign (args : List Text)
    (flagged : parse w.environment args = .ok (i.put s (some (.commandLine, v)))) :
    run w args = run (w.assign s (some v)) (a ++ b) := by
  have assigned : parse (w.assign s (some v)).environment (a ++ b) = _ :=
    parseFrom_update h hi s (some v)
  rw [run, run, flagged, assigned]
  exact (i.run_put_map w s _ _ v).trans (Invocation.run_assign _ w s _).symm

variable (ha : "--".toList ∉ a)

include ha

theorem run_joined (s : Setting) (v : Text) :
    run w (a ++ s.joined v :: b) = run (w.assign s (some v)) (a ++ b) :=
  run_eq_run_assign h hi _ <| parse_append_of_forall ha h hi [s.joined v]
    fun _ _ _ hq hj hb => parseFrom_joined hq hj hb

theorem parse_option (hv : ¬ Dashed v) (s : Setting) :
    parse w.environment (a ++ s.option :: v :: b) = .ok (i.put s (some (.commandLine, v))) :=
  parse_append_of_forall ha h hi [s.option, v] fun _ _ _ hq hj hb =>
    parseFrom_option_value hq hj hb (Token.ofText_eq_plain_iff.mpr hv)

/-- An option that is accepted hides the variable. -/
theorem run_option_assign (hv : ¬ Dashed v) (s : Setting) (u : Option Text) :
    run (w.assign s u) (a ++ s.option :: v :: b) = run w (a ++ s.option :: v :: b) := by
  have assigned : parse (w.assign s u).environment (a ++ b) = _ := parseFrom_update h hi s u
  rw [run, run, parse_option h hi ha hv,
    parse_option assigned (hi.put (by cases u <;> simp) s) ha hv, Invocation.put_put]
  exact Invocation.run_assign _ w s u

theorem exists_run_option_eq_usage (hv : Dashed v) (s : Setting) :
    ∃ e, run w (a ++ s.option :: v :: b) = { trouble := some (.usage e) } := by
  rcases hf : parse w.environment (a ++ s.option :: v :: b) with e | j
  · exact ⟨e, run_of_parse_error hf⟩
  · exact absurd hf
      (parse_option_ne_ok ha h hi (mt Token.ofText_eq_plain_iff.mp (not_not.mpr hv)))

/-- Arguments are accepted that give no setting. Wherever a setting is added before a separator,
its value counts as the same value of its variable would, and hides the variable, exactly if it
does not look like an option; if it does, the arguments are rejected. Joined to the option, every
value counts. -/
theorem run_option_eq_run_assign_iff (s : Setting) (v : Text) :
    (run w (a ++ s.option :: v :: b) = run (w.assign s (some v)) (a ++ b) ↔ ¬ Dashed v) ∧
    (¬ Dashed v → ∀ u,
      run (w.assign s u) (a ++ s.option :: v :: b) = run w (a ++ s.option :: v :: b)) ∧
    (Dashed v → ∃ e, run w (a ++ s.option :: v :: b) = { trouble := some (.usage e) }) ∧
    run w (a ++ s.joined v :: b) = run (w.assign s (some v)) (a ++ b) := by
  refine ⟨⟨fun same hv => ?_, fun hv => run_eq_run_assign h hi _ (parse_option h hi ha hv s)⟩,
    fun hv => run_option_assign h hi ha hv s,
    fun hv => exists_run_option_eq_usage h hi ha hv s, run_joined h hi ha s v⟩
  obtain ⟨e, rejected⟩ := exists_run_option_eq_usage h hi ha hv s
  have assigned : parse (w.assign s (some v)).environment (a ++ b) = _ :=
    parseFrom_update h hi s (some v)
  have trouble := congrArg Outcome.trouble (same.symm.trans rejected)
  rw [run_of_parse_ok assigned] at trouble
  exact Command.trouble_run_ne_usage _ _ _ e trouble

end Run

/-- Markup on the standard input, and nothing else. -/
def World.piped (input : Text) : World :=
  ⟨fun _ => none, Text.utf8 input, fun _ => none, .dropped, .ascii⟩

/-- A limit after the command and another in the environment. -/
theorem run_option_eq_run_assign_iff_piped :
    run (.piped "abcd".toList) (["convert".toList] ++ ["--limit".toList, ['2']]) =
      run ((World.piped "abcd".toList).assign .limit (some ['2'])) ["convert".toList] ∧
    run ((World.piped "abcd".toList).assign .limit (some ['3']))
        (["convert".toList] ++ ["--limit".toList, ['2']]) =
      run (.piped "abcd".toList) (["convert".toList] ++ ["--limit".toList, ['2']]) ∧
    (run (.piped "abcd".toList) (["convert".toList] ++ ["--limit".toList, ['2']])).trouble =
      none := by
  have accepted : parse (World.piped "abcd".toList).environment (["convert".toList] ++ []) =
      .ok ⟨.convert none, ⟨none, none, none⟩⟩ := rfl
  have bare : Invocation.Bare ⟨.convert none, ⟨none, none, none⟩⟩ := by
    intro s v
    cases s <;> exact nofun
  have plain : ¬ Dashed ['2'] := by
    rintro ⟨c, r, h⟩
    exact absurd h (by simp)
  obtain ⟨same, hides, -⟩ := run_option_eq_run_assign_iff accepted bare (by decide) .limit ['2']
  exact ⟨same.mpr plain, hides plain _, by decide +kernel⟩

/-- A limit below zero is no limit in the environment, and is rejected as an option. -/
theorem run_option_negative :
    run (.piped "abcd".toList) ["convert".toList, "--limit".toList, "-5".toList] =
      { trouble := some (.usage .unknownArgument) } ∧
    run ((World.piped "abcd".toList).assign .limit (some "-5".toList)) ["convert".toList] =
      { stdout := "abcd".toList } := by
  decide +kernel

end IssueMarkdown.CommandLine
