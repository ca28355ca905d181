import IssueMarkdown.Proofs.Secrecy
import Mathlib.Logic.Function.Basic

/-! # Reading arguments

What one argument can do to a level, and what accepted arguments went through. A setting of
rendering that was given at any level comes from the command line in the end, and one that was
not comes from its variable.
-/

namespace IssueMarkdown.CommandLine

open Json (bind_eq_ok_iff map_eq_ok_iff)

variable {env : Environment} {l : Level} {p q : Progress} {g : Given} {G : Globals}
  {i : Invocation} {s : Setting} {t : Text} {ts : List Text}

/-! ## Settings by name -/

namespace Setting

def name : Setting → Text
  | limit => "limit".toList
  | missingDescription => "missing-description".toList

/-- The option that the value of a setting follows. -/
def option (s : Setting) : Text := '-' :: '-' :: s.name

/-- The option with its value as one argument. -/
def joined (s : Setting) (v : Text) : Text := s.option ++ '=' :: v

/-- The variable that stands in for the option. -/
def source : Setting → Variable
  | limit => .characterLimit
  | missingDescription => .missingDescription

theorem lookup_choices (s : Setting) (l : Level) :
    l.choices.lookup s.name = some (.setting s) := by
  cases s <;> cases l <;> decide

theorem ofText_option (s : Setting) : Token.ofText s.option = .long s.name none := by
  cases s <;> decide

theorem child?_option (s : Setting) (l : Level) : l.child? s.option = none := by
  cases s <;> cases l <;> decide

theorem isHelp_option (s : Setting) (l : Level) : l.isHelp s.option = false := by
  cases s <;> cases l <;> decide

theorem ofText_joined (s : Setting) (v : Text) :
    Token.ofText (s.joined v) = .long s.name (some v) := by
  cases s <;> rfl

theorem child?_joined (s : Setting) (v : Text) (l : Level) : l.child? (s.joined v) = none := by
  cases s <;> cases l <;> rfl

theorem isHelp_joined (s : Setting) (v : Text) (l : Level) : l.isHelp (s.joined v) = false := by
  cases s <;> cases l <;> rfl

end Setting

namespace Given

def value? (g : Given) : Setting → Option Text
  | .limit => g.limit
  | .missingDescription => g.missingDescription

def put (g : Given) (s : Setting) (v : Text) : Given :=
  match s with
  | .limit => { g with limit := some v }
  | .missingDescription => { g with missingDescription := some v }

@[simp] theorem operand_put (g : Given) (s : Setting) (v : Text) :
    (g.put s v).operand = g.operand := by
  cases s <;> rfl

theorem addSetting_eq (g : Given) (s : Setting) (v : Text) : g.addSetting s v =
    if (g.value? s).isSome then .error .argumentConflict else .ok (g.put s v) := by
  cases s <;> rfl

def isOn (g : Given) : Switch → Bool
  | .verbose => g.verbose
  | .json => g.json
  | .descriptionOnly => g.descriptionOnly
  | .failWhenNotFound => g.failWhenNotFound

def turnOn (g : Given) (x : Switch) : Given :=
  match x with
  | .verbose => { g with verbose := true }
  | .json => { g with json := true }
  | .descriptionOnly => { g with descriptionOnly := true }
  | .failWhenNotFound => { g with failWhenNotFound := true }

theorem addSwitch_eq (g : Given) (x : Switch) : g.addSwitch x =
    if g.isOn x then .error .argumentConflict else .ok (g.turnOn x) := by
  cases x <;> rfl

@[simp] theorem value?_turnOn (g : Given) (x : Switch) (s : Setting) :
    (g.turnOn x).value? s = g.value? s := by
  cases x <;> cases s <;> rfl

@[simp] theorem isOn_put (g : Given) (s : Setting) (v : Text) (x : Switch) :
    (g.put s v).isOn x = g.isOn x := by
  cases x <;> cases s <;> rfl

@[simp] theorem turnOn_put (g : Given) (s : Setting) (v : Text) (x : Switch) :
    (g.put s v).turnOn x = (g.turnOn x).put s v := by
  cases x <;> cases s <;> rfl

theorem value?_put (g : Given) (s s' : Setting) (v : Text) :
    (g.put s v).value? s' = if s' = s then some v else g.value? s' := by
  cases s <;> cases s' <;> rfl

end Given

/-! ## Values and where they come from -/

namespace Ranked

variable {α : Type} {inner : Ranked α}

/-- A value of the command line around a level counts there unless the level has one of its own. -/
theorem beneath_commandLine (h : ∀ a, inner ≠ some (.commandLine, a)) (a : α) :
    inner.beneath (some (.commandLine, a)) = some (.commandLine, a) := by
  rcases inner with _ | ⟨_ | _, b⟩
  · rfl
  · rfl
  · exact absurd rfl (h b)

theorem exists_beneath_commandLine (inner : Ranked α) (a : α) :
    ∃ b, inner.beneath (some (.commandLine, a)) = some (.commandLine, b) := by
  rcases inner with _ | ⟨_ | _, b⟩ <;> exact ⟨_, rfl⟩

theorem commandLine_beneath (a : α) (outer : Ranked α) :
    beneath (some (.commandLine, a)) outer = some (.commandLine, a) := by
  rcases outer with _ | ⟨_ | _, b⟩ <;> rfl

theorem beneath_self (x : Ranked α) : x.beneath x = x := by
  rcases x with _ | ⟨_ | _, b⟩ <;> rfl

end Ranked

namespace Globals

def value? (G : Globals) : Setting → Ranked Text
  | .limit => G.limit
  | .missingDescription => G.missingDescription

def put (G : Globals) (s : Setting) (x : Ranked Text) : Globals :=
  match s with
  | .limit => { G with limit := x }
  | .missingDescription => { G with missingDescription := x }

@[simp] theorem value?_beneath (G G' : Globals) (s : Setting) :
    (G.beneath G').value? s = (G.value? s).beneath (G'.value? s) := by
  cases s <;> rfl

theorem put_beneath_put (G G' : Globals) (s : Setting) (x y : Ranked Text) :
    (G.put s x).beneath (G'.put s y) = (G.beneath G').put s (x.beneath y) := by
  cases s <;> rfl

theorem beneath_put (G G' : Globals) (s : Setting) (y : Ranked Text) :
    G.beneath (G'.put s y) = (G.beneath G').put s ((G.value? s).beneath y) := by
  cases s <;> rfl

theorem put_beneath (G G' : Globals) (s : Setting) (x : Ranked Text) :
    (G.put s x).beneath G' = (G.beneath G').put s (x.beneath (G'.value? s)) := by
  cases s <;> rfl

theorem value?_ofGiven (h : ofGiven env g = .ok G) (s : Setting) :
    G.value? s = .fallback (g.value? s) (env s.source) := by
  obtain ⟨x, -, rfl⟩ := map_eq_ok_iff.mp h
  cases s <;> rfl

theorem ofGiven_put (h : ofGiven env g = .ok G) (s : Setting) (v : Text) :
    ofGiven env (g.put s v) = .ok (G.put s (some (.commandLine, v))) := by
  obtain ⟨x, hx, rfl⟩ := map_eq_ok_iff.mp h
  cases s <;> exact map_eq_ok_iff.mpr ⟨x, hx, rfl⟩

theorem ofGiven_update (h : ofGiven env g = .ok G) (hs : g.value? s = none) (u : Option Text) :
    ofGiven (Function.update env s.source u) g = .ok (G.put s (u.map (.environment, ·))) := by
  obtain ⟨x, hx, rfl⟩ := map_eq_ok_iff.mp h
  refine map_eq_ok_iff.mpr ⟨x, ?_, ?_⟩
  · cases s <;> exact hx
  · cases s
    · simp [put, Ranked.fallback, Setting.source, show g.limit = none from hs]
    · simp [put, Ranked.fallback, Setting.source, show g.missingDescription = none from hs]

end Globals

theorem Level.command_put {c : Command} (h : l.command env g G = .ok c) (s : Setting) (v : Text)
    (G' : Globals) : l.command env (g.put s v) G' = .ok c := by
  cases l with
  | root | issue => exact absurd h (by simp [command])
  | get => cases s <;> exact h
  | convert => cases s <;> exact h
  | ping => exact h

theorem Level.command_update {c : Command} (h : l.command env g G = .ok c) (s : Setting)
    (u : Option Text) (G' : Globals) :
    l.command (Function.update env s.source u) g G' = .ok c := by
  cases l with
  | root | issue => exact absurd h (by simp [command])
  | get => cases s <;> exact h
  | convert | ping => exact h

/-! ## Reading one argument -/

/-- The text has the looks of an option or of the separator. -/
def Dashed (t : Text) : Prop := ∃ c r, t = '-' :: c :: r

namespace Token

theorem ofText_eq_separator_iff : ofText t = .separator ↔ t = "--".toList := by
  constructor
  · intro h
    unfold ofText at h
    split at h <;> first | rfl | exact absurd h (by simp)
  · rintro rfl
    rfl

theorem ofText_eq_plain_iff : ofText t = .plain ↔ ¬ Dashed t := by
  constructor
  · rintro h ⟨c, r, rfl⟩
    unfold ofText at h
    split at h <;> simp_all
  · intro h
    unfold ofText
    split
    · exact absurd ⟨_, _, rfl⟩ h
    · exact absurd ⟨_, _, rfl⟩ h
    · exact absurd ⟨_, _, rfl⟩ h
    · rfl

end Token

namespace Progress

/-- The setting was given at this level, or its value is due. -/
def Holds (p : Progress) (s : Setting) : Prop :=
  (p.given.value? s).isSome ∨ p.pending = .awaiting s ∨ ∃ v, p.pending = .value s v

/-- No setting was given at this level. -/
def Plain (p : Progress) : Prop := ∀ s, ¬ p.Holds s

/-- What was read last is settled unless it is an option whose value is due. -/
theorem settle_cases (h : p.settle l = .ok g) :
    (p.pending = .nothing ∧ g = p.given) ∨
    (∃ s v, p.pending = .value s v ∧ g = p.given.put s v) ∨
    ∃ v, p.pending = .operand v ∧ g = { p.given with operand := some v } := by
  rcases p with ⟨given, _ | s | ⟨s, v⟩ | v, trailing⟩
  · exact .inl ⟨rfl, (Except.ok.inj h).symm⟩
  · exact absurd h (by simp [settle, Pending.settle])
  · simp only [settle, Pending.settle, Given.addSetting_eq] at h
    split at h
    · exact absurd h (by simp)
    · exact .inr (.inl ⟨s, v, rfl, (Except.ok.inj h).symm⟩)
  · simp only [settle, Pending.settle] at h
    split at h
    · exact absurd h (by simp)
    · exact .inr (.inr ⟨v, rfl, (Except.ok.inj h).symm⟩)

theorem value?_settle (h : p.settle l = .ok g) (s : Setting) :
    (g.value? s).isSome ↔ p.Holds s := by
  unfold Holds
  rcases settle_cases h with ⟨hp, rfl⟩ | ⟨s', v, hp, rfl⟩ | ⟨v, hp, rfl⟩
  · simp [hp]
  · rw [hp, Given.value?_put]
    split_ifs with hs
    · simp [hs]
    · simp [Ne.symm hs]
  · rw [hp]
    cases s <;> simp [Given.value?]

theorem awaits_of_settle (h : p.settle l = .ok g) : p.awaits = false := by
  unfold awaits
  rcases settle_cases h with ⟨hp, -⟩ | ⟨s, v, hp, -⟩ | ⟨v, hp, -⟩ <;> rw [hp]

theorem Plain.value? (hp : p.Plain) (h : p.settle l = .ok g) (s : Setting) : g.value? s = none := by
  rw [← Option.not_isSome_iff_eq_none, value?_settle h]
  exact hp s

theorem takePlain_of_settle (h : p.settle l = .ok g) (t : Text) : p.takePlain l t =
    if l.hasOperand && !g.operand.isSome then .ok { p with given := g, pending := .operand t }
    else if p.trailing && ((l.child? t).isSome || l.isHelp t) then .error .unknownArgument
    else if l.hasCommands then .error .invalidSubcommand
    else .error .unknownArgument := by
  have cases := settle_cases h
  rcases p with ⟨given, pending, trailing⟩
  rcases cases with ⟨rfl, rfl⟩ | ⟨s, v, rfl, rfl⟩ | ⟨v, rfl, rfl⟩ <;>
    simp [takePlain, h, bind, Except.bind, pure, Except.pure]

/-- What was read last is settled before an option, and nothing that was given is lost. -/
theorem choose_cases {c : Choice} {value : Option Text} (h : p.choose l c value = .ok q) :
    ∃ g, p.settle l = .ok g ∧ q.trailing = p.trailing ∧
      ∀ s, (g.value? s).isSome → (q.given.value? s).isSome := by
  rcases hg : p.settle l with e | g
  · rcases c with _ | _ | s | x <;> cases value <;> simp [choose, hg, bind, Except.bind] at h
  refine ⟨g, rfl, ?_⟩
  rcases c with _ | _ | s | x <;> rcases value with _ | v <;>
    simp only [choose, hg, bind, Except.bind, pure, Except.pure, throw, throwThe,
      MonadExceptOf.throw, Given.addSetting_eq, Given.addSwitch_eq, reduceCtorEq] at h
  · obtain rfl := Except.ok.inj h
    exact ⟨rfl, fun _ hs => hs⟩
  · split_ifs at h
    obtain rfl := Except.ok.inj h
    refine ⟨rfl, fun s' hs => ?_⟩
    rw [Given.value?_put]
    split_ifs
    · rfl
    · exact hs
  · split_ifs at h
    obtain rfl := Except.ok.inj h
    exact ⟨rfl, fun s hs => by rwa [Given.value?_turnOn]⟩

/-- What was read last is settled before an operand, unless it is an option whose value is due. -/
theorem takePlain_cases (h : p.takePlain l t = .ok q) :
    (p.trailing = false ∧ ∃ s, p.pending = .awaiting s ∧ q = { p with pending := .value s t }) ∨
    ∃ g, p.settle l = .ok g ∧ q = { p with given := g, pending := .operand t } := by
  unfold takePlain at h
  split at h
  · next s hp ht => exact .inl ⟨ht, s, hp, (Except.ok.inj h).symm⟩
  · dsimp only at h
    split_ifs at h
    obtain ⟨g, hg, hq⟩ := bind_eq_ok_iff.mp h
    exact .inr ⟨g, hg, (Except.ok.inj hq).symm⟩

/-- An argument is the separator, the value that is due, or comes after what was read last is
settled; then nothing that was given is lost. -/
theorem take_cases (h : p.take l t = .ok q) :
    (p.trailing = false ∧ t = "--".toList ∧ q = { p with trailing := true }) ∨
    (p.trailing = false ∧ Token.ofText t = .plain ∧
      ∃ s, p.pending = .awaiting s ∧ q = { p with pending := .value s t }) ∨
    ∃ g, p.settle l = .ok g ∧ q.trailing = p.trailing ∧
      ∀ s, (g.value? s).isSome → (q.given.value? s).isSome := by
  unfold take at h
  split at h
  · next hp =>
    rcases takePlain_cases h with ⟨hp', -⟩ | ⟨g, hg, rfl⟩
    · exact absurd (hp.symm.trans hp') (by simp)
    · exact .inr (.inr ⟨g, hg, rfl, fun _ hs => hs⟩)
  next hp =>
  split at h
  · next ht =>
    exact .inl ⟨by simpa using hp, Token.ofText_eq_separator_iff.mp ht, (Except.ok.inj h).symm⟩
  · split at h
    · exact .inr (.inr (choose_cases h))
    · exact absurd h (by simp)
  · split at h
    · exact .inr (.inr (choose_cases h))
    · exact absurd h (by simp)
  · next ht =>
    rcases takePlain_cases h with ⟨hp, value⟩ | ⟨g, hg, rfl⟩
    · exact .inr (.inl ⟨hp, ht, value⟩)
    · exact .inr (.inr ⟨g, hg, rfl, fun _ hs => hs⟩)

/-- A setting that was given stays so, whatever is read next. -/
theorem Holds.take (hp : p.Holds s) (h : p.take l t = .ok q) : q.Holds s := by
  rcases take_cases h with ⟨-, -, rfl⟩ | ⟨-, -, s', hs', rfl⟩ | ⟨g, hg, -, kept⟩
  · exact hp
  · rcases hp with hp | hp | ⟨v, hp⟩
    · exact .inl hp
    · obtain rfl := Pending.awaiting.inj (hs'.symm.trans hp)
      exact .inr (.inr ⟨t, rfl⟩)
    · exact absurd (hs'.symm.trans hp) (by simp)
  · exact .inl (kept s ((value?_settle hg s).mpr hp))

end Progress

/-! ## Reading the arguments of a level -/

theorem Progress.finish_eq_ok_iff :
    p.finish l env = .ok (g, G) ↔ p.settle l = .ok g ∧ Globals.ofGiven env g = .ok G := by
  simp [finish, bind_eq_ok_iff, pure, Except.pure]

theorem parseFrom_nil_eq_ok_iff : parseFrom env l p [] = .ok i ↔ ∃ g, p.settle l = .ok g ∧
    Globals.ofGiven env g = .ok i.globals ∧ l.command env g i.globals = .ok i.command := by
  rw [parseFrom, bind_eq_ok_iff]
  constructor
  · rintro ⟨⟨g, G⟩, hf, h⟩
    obtain ⟨c, hc, rfl⟩ := map_eq_ok_iff.mp h
    exact ⟨g, (Progress.finish_eq_ok_iff.mp hf).1, (Progress.finish_eq_ok_iff.mp hf).2, hc⟩
  · rintro ⟨g, hg, hG, hc⟩
    exact ⟨(g, i.globals), Progress.finish_eq_ok_iff.mpr ⟨hg, hG⟩,
      map_eq_ok_iff.mpr ⟨_, hc, rfl⟩⟩

/-- The invocation of an inner level, with the settings that stand around it. -/
def Invocation.within (i : Invocation) (G : Globals) : Invocation :=
  { i with globals := i.globals.beneath G }

theorem parseFrom_cons_of_child {k : Level} (hp : (p.trailing || p.awaits) = false)
    (hk : l.child? t = some k) (hg : p.settle l = .ok g) (hG : Globals.ofGiven env g = .ok G)
    (ts : List Text) :
    parseFrom env l p (t :: ts) = (parseFrom env k {} ts).map (·.within G) := by
  rw [parseFrom, hp, if_neg Bool.false_ne_true, hk, Progress.finish_eq_ok_iff.mpr ⟨hg, hG⟩]
  dsimp only
  cases parseFrom env k {} ts <;> rfl

theorem parseFrom_cons_of_take
    (ht : (p.trailing || p.awaits) = true ∨ l.child? t = none ∧ l.isHelp t = false)
    (ts : List Text) :
    parseFrom env l p (t :: ts) = p.take l t >>= fun q => parseFrom env l q ts := by
  rw [parseFrom]
  rcases ht with h | ⟨hk, hh⟩
  · rw [if_pos h]
  · split
    · rfl
    · rw [hk, hh]
      rfl

/-- The next of accepted arguments opens the level inside, or is taken at this one. -/
theorem parseFrom_cons_cases (h : parseFrom env l p (t :: ts) = .ok i) :
    (∃ k i₀ g G, (p.trailing || p.awaits) = false ∧ l.child? t = some k ∧
      p.settle l = .ok g ∧ Globals.ofGiven env g = .ok G ∧
      parseFrom env k {} ts = .ok i₀ ∧ i = i₀.within G) ∨
    ∃ q, ((p.trailing || p.awaits) = true ∨ l.child? t = none ∧ l.isHelp t = false) ∧
      p.take l t = .ok q ∧ parseFrom env l q ts = .ok i := by
  rw [parseFrom] at h
  split at h
  · next hp =>
    obtain ⟨q, hq, h⟩ := bind_eq_ok_iff.mp h
    exact .inr ⟨q, .inl hp, hq, h⟩
  next hp =>
  split at h
  · next k hk =>
    obtain ⟨i₀, h₀, h⟩ := bind_eq_ok_iff.mp h
    obtain ⟨⟨g, G⟩, hf, hi⟩ := bind_eq_ok_iff.mp h
    obtain ⟨hg, hG⟩ := Progress.finish_eq_ok_iff.mp hf
    exact .inl ⟨k, i₀, g, G, by simpa using hp, hk, hg, hG, h₀, (Except.ok.inj hi).symm⟩
  · next hk =>
    split at h
    · exact absurd h (by simp)
    · next hh =>
      obtain ⟨q, hq, h⟩ := bind_eq_ok_iff.mp h
      exact .inr ⟨q, .inr ⟨hk, by simpa using hh⟩, hq, h⟩

namespace Invocation

def put (i : Invocation) (s : Setting) (x : Ranked Text) : Invocation :=
  { i with globals := i.globals.put s x }

/-- No setting comes from the command line. -/
def Bare (i : Invocation) : Prop := ∀ s v, i.globals.value? s ≠ some (.commandLine, v)

theorem Bare.of_within (h : (i.within G).Bare) : i.Bare := by
  intro s v hv
  refine h s v ?_
  rw [within, Globals.value?_beneath, hv, Ranked.commandLine_beneath]

theorem Bare.put (h : i.Bare) {x : Ranked Text} (hx : ∀ v, x ≠ some (.commandLine, v)) (s) :
    (i.put s x).Bare := by
  intro s' v
  unfold Invocation.put
  cases s <;> cases s' <;>
    first | exact hx v | exact h .limit v | exact h .missingDescription v

theorem put_put (i : Invocation) (s : Setting) (x y : Ranked Text) :
    (i.put s x).put s y = i.put s y := by
  cases s <;> rfl

theorem put_within (i : Invocation) (G : Globals) (s : Setting) (v : Text) :
    (i.put s (some (.commandLine, v))).within G =
      (i.within G).put s (some (.commandLine, v)) := by
  simp only [within, put, Globals.put_beneath, Ranked.commandLine_beneath]

theorem Bare.within_put (h : i.Bare) (G : Globals) (s : Setting) (v : Text) :
    i.within (G.put s (some (.commandLine, v))) =
      (i.within G).put s (some (.commandLine, v)) := by
  simp only [within, Invocation.put, Globals.beneath_put, Ranked.beneath_commandLine (h s)]

theorem put_within_put (i : Invocation) (G : Globals) (s : Setting) (x : Ranked Text) :
    (i.put s x).within (G.put s x) = (i.within G).put s x := by
  simp only [within, put, Globals.put_beneath_put, Ranked.beneath_self]

end Invocation

open Progress Invocation

/-- A setting that was given at a level, or whose value is due there, comes from the command line
in the end. -/
theorem exists_commandLine_of_holds (h : parseFrom env l p ts = .ok i) (hp : p.Holds s) :
    ∃ v, i.globals.value? s = some (.commandLine, v) := by
  induction ts generalizing l p i with
  | nil =>
    obtain ⟨g, hg, hG, -⟩ := parseFrom_nil_eq_ok_iff.mp h
    obtain ⟨v, hv⟩ := Option.isSome_iff_exists.mp ((value?_settle hg s).mpr hp)
    exact ⟨v, by rw [Globals.value?_ofGiven hG, hv]; rfl⟩
  | cons t ts ih =>
    rcases parseFrom_cons_cases h with ⟨k, i₀, g, G, -, -, hg, hG, -, rfl⟩ | ⟨q, -, hq, h⟩
    · obtain ⟨v, hv⟩ := Option.isSome_iff_exists.mp ((value?_settle hg s).mpr hp)
      rw [Invocation.within, Globals.value?_beneath, Globals.value?_ofGiven hG, hv]
      exact Ranked.exists_beneath_commandLine _ v
    · exact ih h (hp.take hq)

theorem Invocation.Bare.plain (hi : i.Bare) (h : parseFrom env l p ts = .ok i) : p.Plain := by
  intro s hp
  obtain ⟨v, hv⟩ := exists_commandLine_of_holds h hp
  exact hi s v hv

/-- Accepted arguments settle what was read before them, unless it is an option whose value is
due. -/
theorem Progress.Plain.exists_settle (hp : p.Plain) (h : parseFrom env l p ts = .ok i) :
    ∃ g, p.settle l = .ok g := by
  induction ts generalizing p with
  | nil =>
    obtain ⟨g, hg, -⟩ := parseFrom_nil_eq_ok_iff.mp h
    exact ⟨g, hg⟩
  | cons t ts ih =>
    rcases parseFrom_cons_cases h with ⟨k, i₀, g, G, -, -, hg, -⟩ | ⟨q, -, hq, h⟩
    · exact ⟨g, hg⟩
    · rcases take_cases hq with ⟨-, -, rfl⟩ | ⟨-, -, s, hs, -⟩ | ⟨g, hg, -⟩
      · exact ih (p := { p with trailing := true }) hp h
      · exact absurd (.inr (.inl hs)) (hp s)
      · exact ⟨g, hg⟩

end IssueMarkdown.CommandLine
