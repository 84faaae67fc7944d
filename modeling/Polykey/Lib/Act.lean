/-
# Programs that may fail

An `Act` is a program whose result is a value or an error, with the sequencing one expects: an
error ends the program.  The specifications here speak of the success of an action only.

`Spec P p Q` is the rely/guarantee reading of a Hoare triple: started where `P` holds, whatever
the others do between its calls, every call of `p` keeps the invariant and respects the rely
relation, and if `p` succeeds then `Q` holds of its value.  A precondition has to be stable,
which the rules ask for where a call is made.
-/
import Polykey.Lib.Prog

namespace Lib

/-! ## 1. Actions -/

/-- A program that ends with a value or an error. -/
def Act (I : Interface) (ε α : Type) : Type := Prog I (Except ε α)

namespace Act

variable {I : Interface} {ε α β : Type}

def throw (e : ε) : Act I ε α := Prog.ret (.error e)

def ofExcept (r : Except ε α) : Act I ε α := Prog.ret r

/-- Go on with the value; stop at an error. -/
def andThen (p : Act I ε α) (f : α → Act I ε β) : Act I ε β :=
  Prog.bind p fun
    | .ok a => f a
    | .error e => Prog.ret (.error e)

instance : Monad (Act I ε) where
  pure a := Prog.ret (.ok a)
  bind := andThen

theorem bind_assoc {γ : Type} (p : Act I ε α) (f : α → Act I ε β) (g : β → Act I ε γ) :
    (p >>= f) >>= g = p >>= fun a => f a >>= g := by
  induction p with
  | ret r => cases r <;> rfl
  | call op k ih => exact congrArg (Prog.call op) (funext ih)

/-- Rewrite the error. -/
def mapError (f : ε → ε) (p : Act I ε α) : Act I ε α := Prog.bind p fun r => Prog.ret (r.mapError f)

/-- Make another kind of error of the error. -/
def rethrow {δ : Type} (f : ε → δ) (p : Act I ε α) : Act I δ α :=
  Prog.bind p fun r => Prog.ret (r.mapError f)

/-- Turn an error into a value. -/
def attempt (p : Act I ε α) : Act I ε (Except ε α) := Prog.bind p fun r => Prog.ret (.ok r)

/-- A call that cannot fail. -/
def call (op : I.Op) : Act I ε (I.Res op) := Prog.call op fun r => Prog.ret (.ok r)

/-- A call whose answer may stand for an error. -/
def tryCall (op : I.Op) (k : I.Res op → Except ε α) : Act I ε α :=
  Prog.call op fun r => Prog.ret (k r)

/-! ### The calls an action makes -/

section Only

variable {P : I.Op → Prop}

/-- Every call that the action can come to make satisfies `P`. -/
def Only (P : I.Op → Prop) (p : Act I ε α) : Prop := Prog.Only P p

theorem Only.pure (a : α) : Only P (Pure.pure a : Act I ε α) := trivial

theorem Only.throw (e : ε) : Only P (throw e : Act I ε α) := trivial

theorem Only.ofExcept (x : Except ε α) : Only P (ofExcept x : Act I ε α) := trivial

theorem Only.bind {p : Act I ε α} {f : α → Act I ε β} (hp : Only P p) (hf : ∀ a, Only P (f a)) :
    Only P (p >>= f) := by
  refine Prog.Only.bind hp fun r => ?_
  cases r with
  | ok a => exact hf a
  | error e => trivial

theorem Only.mapError {f : ε → ε} {p : Act I ε α} (hp : Only P p) : Only P (mapError f p) :=
  Prog.Only.bind hp fun _ => trivial

theorem Only.attempt {p : Act I ε α} (hp : Only P p) : Only P (attempt p) :=
  Prog.Only.bind hp fun _ => trivial

theorem Only.tryCall {op : I.Op} (h : P op) (k : I.Res op → Except ε α) :
    Only P (tryCall op k) :=
  ⟨h, fun _ => trivial⟩

theorem Only.call {op : I.Op} (h : P op) : Only P (call op : Act I ε (I.Res op)) :=
  ⟨h, fun _ => trivial⟩

theorem Only.ite {c : Prop} [Decidable c] {p q : Act I ε α} (hp : Only P p) (hq : Only P q) :
    Only P (if c then p else q) := by
  split
  · exact hp
  · exact hq

end Only

/-! ## 2. Running alone -/

variable {σ : Type} {sem : Sem I σ} {s s' : σ}

/-- The action, alone from `s`, can end with `r` in `s'`. -/
def Runs (sem : Sem I σ) (p : Act I ε α) (s : σ) (r : Except ε α) (s' : σ) : Prop :=
  Prog.Runs sem p s r s'

@[simp] theorem runs_pure {a : α} {r : Except ε α} :
    Runs sem (Pure.pure a : Act I ε α) s r s' ↔ r = .ok a ∧ s' = s := Iff.rfl

@[simp] theorem runs_throw {e : ε} {r : Except ε α} :
    Runs sem (throw e : Act I ε α) s r s' ↔ r = .error e ∧ s' = s := Iff.rfl

@[simp] theorem runs_ofExcept {x r : Except ε α} :
    Runs sem (ofExcept x : Act I ε α) s r s' ↔ r = x ∧ s' = s := Iff.rfl

theorem Runs.mono {sem' : Sem I σ} (h : ∀ op s r s', sem op s r s' → sem' op s r s')
    {p : Act I ε α} {r : Except ε α} (hrun : Runs sem p s r s') : Runs sem' p s r s' :=
  Prog.Runs.mono h hrun

/-- A sequence ends with its second half, or with the error of its first. -/
theorem runs_bind {p : Act I ε α} {f : α → Act I ε β} {r : Except ε β} :
    Runs sem (p >>= f) s r s' ↔
      (∃ a s₁, Runs sem p s (.ok a) s₁ ∧ Runs sem (f a) s₁ r s') ∨
        ∃ e, r = .error e ∧ Runs sem p s (.error e) s' := by
  refine Prog.runs_bind.trans ⟨?_, ?_⟩
  · rintro ⟨x, s₁, hp, hf⟩
    cases x with
    | ok a => exact .inl ⟨a, s₁, hp, hf⟩
    | error e =>
      obtain ⟨rfl, rfl⟩ := hf
      exact .inr ⟨e, rfl, hp⟩
  · rintro (⟨a, s₁, hp, hf⟩ | ⟨e, rfl, hp⟩)
    · exact ⟨.ok a, s₁, hp, hf⟩
    · exact ⟨.error e, s', hp, rfl, rfl⟩

/-- A sequence succeeds when both its halves do. -/
@[simp] theorem runs_bind_ok {p : Act I ε α} {f : α → Act I ε β} {b : β} :
    Runs sem (p >>= f) s (.ok b) s' ↔
      ∃ a s₁, Runs sem p s (.ok a) s₁ ∧ Runs sem (f a) s₁ (.ok b) s' := by
  rw [runs_bind]
  constructor
  · rintro (h | ⟨e, he, -⟩)
    · exact h
    · cases he
  · exact .inl

/-- A run of a sequence, one half at a time. -/
theorem exists_runs_bind {p : Act I ε α} {f : α → Act I ε β} {a : α} {s₁ : σ}
    {P : β → σ → Prop} (hp : Runs sem p s (.ok a) s₁)
    (hf : ∃ b s', Runs sem (f a) s₁ (.ok b) s' ∧ P b s') :
    ∃ b s', Runs sem (p >>= f) s (.ok b) s' ∧ P b s' := by
  obtain ⟨b, s', hrun, hP⟩ := hf
  exact ⟨b, s', runs_bind_ok.mpr ⟨a, s₁, hp, hrun⟩, hP⟩

theorem runs_mapError {f : ε → ε} {p : Act I ε α} {r : Except ε α} :
    Runs sem (mapError f p) s r s' ↔ ∃ x, Runs sem p s x s' ∧ r = x.mapError f := by
  refine Prog.runs_bind.trans ⟨?_, ?_⟩
  · rintro ⟨x, s₁, hp, hr, rfl⟩
    exact ⟨x, hp, hr⟩
  · rintro ⟨x, hp, hr⟩
    exact ⟨x, s', hp, hr, rfl⟩

@[simp] theorem runs_mapError_ok {f : ε → ε} {p : Act I ε α} {a : α} :
    Runs sem (mapError f p) s (.ok a) s' ↔ Runs sem p s (.ok a) s' := by
  rw [runs_mapError]
  constructor
  · rintro ⟨x, hp, hx⟩
    cases x with
    | ok b =>
      cases hx
      exact hp
    | error e => cases hx
  · intro hp
    exact ⟨.ok a, hp, rfl⟩

theorem runs_rethrow {δ : Type} {f : ε → δ} {p : Act I ε α} {r : Except δ α} :
    Runs sem (rethrow f p) s r s' ↔ ∃ x, Runs sem p s x s' ∧ r = x.mapError f := by
  refine Prog.runs_bind.trans ⟨?_, ?_⟩
  · rintro ⟨x, s₁, hp, hr, rfl⟩
    exact ⟨x, hp, hr⟩
  · rintro ⟨x, hp, hr⟩
    exact ⟨x, s', hp, hr, rfl⟩

@[simp] theorem runs_attempt {p : Act I ε α} {r : Except ε α} :
    Runs sem (attempt p) s (.ok r) s' ↔ Runs sem p s r s' := by
  refine Prog.runs_bind.trans ⟨?_, ?_⟩
  · rintro ⟨r₁, s₁, hp, hr, rfl⟩
    cases hr
    exact hp
  · intro hp
    exact ⟨r, s', hp, rfl, rfl⟩

@[simp] theorem runs_call {op : I.Op} {r : I.Res op} :
    Runs sem (call op : Act I ε (I.Res op)) s (.ok r) s' ↔ sem op s r s' := by
  constructor
  · rintro ⟨r₁, s₁, hop, hr, rfl⟩
    cases hr
    exact hop
  · intro hop
    exact ⟨r, s', hop, rfl, rfl⟩

@[simp] theorem runs_tryCall {op : I.Op} {k : I.Res op → Except ε α} {r : Except ε α} :
    Runs sem (tryCall op k) s r s' ↔ ∃ x, sem op s x s' ∧ r = k x := by
  constructor
  · rintro ⟨x, s₁, hop, hr, rfl⟩
    exact ⟨x, hop, hr⟩
  · rintro ⟨x, hop, hr⟩
    exact ⟨x, s', hop, hr, rfl⟩

/-! ### Coming to an end -/

/-- From every state the action can come to an end. -/
def Returns (sem : Sem I σ) (p : Act I ε α) : Prop := ∀ s, ∃ r s', Runs sem p s r s'

theorem Returns.pure (a : α) : Returns sem (Pure.pure a : Act I ε α) := fun s => ⟨_, s, rfl, rfl⟩

theorem Returns.throw (e : ε) : Returns sem (throw e : Act I ε α) := fun s => ⟨_, s, rfl, rfl⟩

theorem Returns.ofExcept (x : Except ε α) : Returns sem (ofExcept x : Act I ε α) :=
  fun s => ⟨_, s, rfl, rfl⟩

theorem Returns.bind {p : Act I ε α} {f : α → Act I ε β} (hp : Returns sem p)
    (hf : ∀ a, Returns sem (f a)) : Returns sem (p >>= f) := by
  intro s
  obtain ⟨r, s₁, hrun⟩ := hp s
  cases r with
  | error e => exact ⟨.error e, s₁, runs_bind.mpr (.inr ⟨e, rfl, hrun⟩)⟩
  | ok a =>
    obtain ⟨r, s', hrest⟩ := hf a s₁
    exact ⟨r, s', runs_bind.mpr (.inl ⟨a, s₁, hrun, hrest⟩)⟩

theorem Returns.mapError {f : ε → ε} {p : Act I ε α} (hp : Returns sem p) :
    Returns sem (mapError f p) := by
  intro s
  obtain ⟨r, s', hrun⟩ := hp s
  exact ⟨r.mapError f, s', runs_mapError.mpr ⟨r, hrun, rfl⟩⟩

theorem Returns.attempt {p : Act I ε α} (hp : Returns sem p) : Returns sem (attempt p) := by
  intro s
  obtain ⟨r, s', hrun⟩ := hp s
  exact ⟨.ok r, s', runs_attempt.mpr hrun⟩

theorem Returns.tryCall {op : I.Op} (h : ∀ s, ∃ r s', sem op s r s') (k : I.Res op → Except ε α) :
    Returns sem (tryCall op k) := by
  intro s
  obtain ⟨r, s', hop⟩ := h s
  exact ⟨k r, s', runs_tryCall.mpr ⟨r, hop, rfl⟩⟩

theorem Returns.call {op : I.Op} (h : ∀ s, ∃ r s', sem op s r s') :
    Returns sem (call op : Act I ε (I.Res op)) :=
  Returns.tryCall h Except.ok

/-! ### Actions that do not fail -/

/-- The action can come to an end, and always with a value. -/
structure Settles (sem : Sem I σ) (p : Act I ε α) : Prop where
  returns : Returns sem p
  succeeds : ∀ s r s', Runs sem p s r s' → ∃ a, r = .ok a

theorem Settles.pure (a : α) : Settles sem (Pure.pure a : Act I ε α) :=
  ⟨.pure a, fun _ _ _ hrun => ⟨a, hrun.1⟩⟩

theorem Settles.bind {p : Act I ε α} {f : α → Act I ε β} (hp : Settles sem p)
    (hf : ∀ a, Settles sem (f a)) : Settles sem (p >>= f) := by
  refine ⟨hp.returns.bind fun a => (hf a).returns, fun s r s' hrun => ?_⟩
  rcases runs_bind.mp hrun with ⟨a, s₁, -, hrest⟩ | ⟨e, -, herr⟩
  · exact (hf a).succeeds s₁ r s' hrest
  · obtain ⟨a, ha⟩ := hp.succeeds s _ s' herr
    cases ha

theorem Settles.attempt {p : Act I ε α} (hp : Returns sem p) : Settles sem (attempt p) := by
  refine ⟨hp.attempt, fun s r s' hrun => ?_⟩
  obtain ⟨x, s₁, -, hr, -⟩ := Prog.runs_bind.mp hrun
  exact ⟨x, hr⟩

theorem Settles.call {op : I.Op} (h : ∀ s, ∃ r s', sem op s r s') :
    Settles sem (call op : Act I ε (I.Res op)) := by
  refine ⟨.call h, fun s r s' hrun => ?_⟩
  obtain ⟨x, -, hr⟩ := runs_tryCall.mp hrun
  exact ⟨x, hr⟩

/-! ### Actions that run alike -/

/-- The two actions have the same runs, up to their values, which are related. -/
structure Alike (sem : Sem I σ) (p : Act I ε α) (q : Act I ε β) (R : α → β → Prop) : Prop where
  forth : ∀ s a s', Runs sem p s (.ok a) s' → ∃ b, Runs sem q s (.ok b) s' ∧ R a b
  back : ∀ s b s', Runs sem q s (.ok b) s' → ∃ a, Runs sem p s (.ok a) s' ∧ R a b
  fails : ∀ s e s', Runs sem p s (.error e) s' ↔ Runs sem q s (.error e) s'

/-- An action is like itself, and its value is what is known of it. -/
theorem Alike.refl {p : Act I ε α} {K : α → Prop}
    (hK : ∀ s a s', Runs sem p s (.ok a) s' → K a) : Alike sem p p fun a b => b = a ∧ K a := by
  refine ⟨fun s a s' hrun => ?_, fun s b s' hrun => ?_, fun _ _ _ => Iff.rfl⟩
  · exact ⟨a, hrun, rfl, hK s a s' hrun⟩
  · exact ⟨b, hrun, rfl, hK s b s' hrun⟩

theorem Alike.same (p : Act I ε α) : Alike sem p p fun a b => b = a ∧ True :=
  .refl fun _ _ _ _ => trivial

theorem Alike.pure {R : α → β → Prop} {a : α} {b : β} (h : R a b) :
    Alike sem (Pure.pure a : Act I ε α) (Pure.pure b) R := by
  refine ⟨?_, ?_, ?_⟩
  · rintro s _ _ ⟨hok, rfl⟩
    cases hok
    exact ⟨b, ⟨rfl, rfl⟩, h⟩
  · rintro s _ _ ⟨hok, rfl⟩
    cases hok
    exact ⟨a, ⟨rfl, rfl⟩, h⟩
  · intro s e s'
    simp

theorem Alike.throw {R : α → β → Prop} (e : ε) :
    Alike sem (throw e : Act I ε α) (throw e : Act I ε β) R := by
  refine ⟨?_, ?_, ?_⟩
  · rintro s _ _ ⟨hok, -⟩
    cases hok
  · rintro s _ _ ⟨hok, -⟩
    cases hok
  · intro s e' s'
    simp

theorem Alike.bind {γ δ : Type} {R : α → β → Prop} {R' : γ → δ → Prop} {p : Act I ε α}
    {q : Act I ε β} {f : α → Act I ε γ} {g : β → Act I ε δ} (hp : Alike sem p q R)
    (hf : ∀ a b, R a b → Alike sem (f a) (g b) R') : Alike sem (p >>= f) (q >>= g) R' := by
  refine ⟨fun s c s' hrun => ?_, fun s d s' hrun => ?_, fun s e s' => ?_⟩
  · obtain ⟨a, s₁, ha, hc⟩ := runs_bind_ok.mp hrun
    obtain ⟨b, hb, hR⟩ := hp.forth s a s₁ ha
    obtain ⟨d, hd, hR'⟩ := (hf a b hR).forth s₁ c s' hc
    exact ⟨d, runs_bind_ok.mpr ⟨b, s₁, hb, hd⟩, hR'⟩
  · obtain ⟨b, s₁, hb, hd⟩ := runs_bind_ok.mp hrun
    obtain ⟨a, ha, hR⟩ := hp.back s b s₁ hb
    obtain ⟨c, hc, hR'⟩ := (hf a b hR).back s₁ d s' hd
    exact ⟨c, runs_bind_ok.mpr ⟨a, s₁, ha, hc⟩, hR'⟩
  · rw [runs_bind, runs_bind]
    constructor
    · rintro (⟨a, s₁, ha, he⟩ | ⟨e', he', herr⟩)
      · obtain ⟨b, hb, hR⟩ := hp.forth s a s₁ ha
        exact .inl ⟨b, s₁, hb, ((hf a b hR).fails s₁ e s').mp he⟩
      · cases he'
        exact .inr ⟨e, rfl, (hp.fails s e s').mp herr⟩
    · rintro (⟨b, s₁, hb, he⟩ | ⟨e', he', herr⟩)
      · obtain ⟨a, ha, hR⟩ := hp.back s b s₁ hb
        exact .inl ⟨a, s₁, ha, ((hf a b hR).fails s₁ e s').mpr he⟩
      · cases he'
        exact .inr ⟨e, rfl, (hp.fails s e s').mpr herr⟩

/-- The same beginning. -/
theorem Alike.after {γ δ : Type} {R' : γ → δ → Prop} (p : Act I ε α) {f : α → Act I ε γ}
    {g : α → Act I ε δ} (hf : ∀ a, Alike sem (f a) (g a) R') :
    Alike sem (p >>= f) (p >>= g) R' := by
  refine (Alike.same p).bind fun a b hab => ?_
  obtain ⟨rfl, -⟩ := hab
  exact hf b

/-- A function of the value. -/
theorem Alike.map_left {γ : Type} {R : γ → β → Prop} {p : Act I ε α} {q : Act I ε β} {f : α → γ}
    (h : Alike sem p q fun a b => R (f a) b) : Alike sem (p >>= fun a => Pure.pure (f a)) q R := by
  refine ⟨fun s c s' hrun => ?_, fun s b s' hrun => ?_, fun s e s' => ?_⟩
  · obtain ⟨a, s₁, ha, hc, rfl⟩ := runs_bind_ok.mp hrun
    cases hc
    exact h.forth s a s' ha
  · obtain ⟨a, ha, hR⟩ := h.back s b s' hrun
    exact ⟨f a, runs_bind_ok.mpr ⟨a, s', ha, rfl, rfl⟩, hR⟩
  · rw [runs_bind, ← h.fails s e s']
    constructor
    · rintro (⟨a, s₁, -, he, -⟩ | ⟨e', he', herr⟩)
      · cases he
      · cases he'
        exact herr
    · exact fun herr => .inr ⟨e, rfl, herr⟩

/-! ## 3. Specifications

One rule for each way in which an action is made, so that a proof about an action can follow its
text. -/

variable {D : Discipline I σ} {P : σ → Prop} {Q : α → σ → Prop}

/-- Started where `P` holds, the action meets its obligations, and `Q` holds if it succeeds. -/
structure Spec (D : Discipline I σ) (P : σ → Prop) (p : Act I ε α) (Q : α → σ → Prop) : Prop where
  meets : ∀ s, P s → Prog.Meets D (fun r s' => ∀ a, r = .ok a → Q a s') p s

/-- What a specification says about an action that runs alone. -/
theorem Spec.runs {p : Act I ε α} (h : Spec D P p Q) {s s' : σ} {r : Except ε α} (hs : P s)
    (hi : D.inv s) (hrun : Runs D.sem p s r s') : D.inv s' ∧ ∀ a, r = .ok a → Q a s' :=
  (h.meets s hs).runs hi hrun

theorem Spec.pure {a : α} (h : ∀ s, P s → Q a s) : Spec D P (Pure.pure a : Act I ε α) Q := by
  refine ⟨fun s hs b hb => ?_⟩
  cases hb
  exact h s hs

theorem Spec.throw {e : ε} : Spec D P (throw e : Act I ε α) Q := ⟨fun _ _ _ hb => nomatch hb⟩

theorem Spec.ofExcept {x : Except ε α} (h : ∀ a, x = .ok a → ∀ s, P s → Q a s) :
    Spec D P (ofExcept x : Act I ε α) Q :=
  ⟨fun s hs a ha => h a ha s hs⟩

theorem Spec.bind {p : Act I ε α} {f : α → Act I ε β} {Q' : β → σ → Prop}
    (hp : Spec D P p Q) (hf : ∀ a, Spec D (Q a) (f a) Q') : Spec D P (p >>= f) Q' := by
  refine ⟨fun s hs => Prog.Meets.bind (hp.meets s hs) fun r s' hr => ?_⟩
  cases r with
  | ok a => exact (hf a).meets s' (hr a rfl)
  | error e => exact fun b hb => by cases hb

theorem Spec.mapError {f : ε → ε} {p : Act I ε α} (hp : Spec D P p Q) :
    Spec D P (mapError f p) Q := by
  refine ⟨fun s hs => Prog.Meets.bind (hp.meets s hs) fun r s' hr => ?_⟩
  cases r with
  | ok a => exact hr
  | error e => exact fun b hb => by cases hb

theorem Spec.attempt {p : Act I ε α} (hp : Spec D P p Q) :
    Spec D P (attempt p) fun r s => ∀ a, r = .ok a → Q a s := by
  refine ⟨fun s hs => Prog.Meets.bind (hp.meets s hs) fun r s' hr b hb => ?_⟩
  cases hb
  exact hr

theorem Spec.conseq {P' : σ → Prop} {Q' : α → σ → Prop} {p : Act I ε α}
    (hp : Spec D P p Q) (hP : ∀ s, P' s → P s) (hQ : ∀ a s, Q a s → Q' a s) : Spec D P' p Q' :=
  ⟨fun s hs => (hp.meets s (hP s hs)).mono fun _ s' hr a ha => hQ a s' (hr a ha)⟩

/-- A precondition may ask for less. -/
theorem Spec.pre {P' : σ → Prop} {p : Act I ε α} (hp : Spec D P p Q) (hP : ∀ s, P' s → P s) :
    Spec D P' p Q :=
  ⟨fun s hs => hp.meets s (hP s hs)⟩

/-- What a precondition says about no state is a hypothesis. -/
theorem Spec.assume {C : Prop} {p : Act I ε α} (h : C → Spec D P p Q) :
    Spec D (fun s => C ∧ P s) p Q :=
  ⟨fun s hs => (h hs.1).meets s hs.2⟩

theorem Spec.exists {ι : Type} {P : ι → σ → Prop} {p : Act I ε α} (h : ∀ i, Spec D (P i) p Q) :
    Spec D (fun s => ∃ i, P i s) p Q := by
  refine ⟨fun s hs => ?_⟩
  obtain ⟨i, hi⟩ := hs
  exact (h i).meets s hi

/-- What is known of a value alone is a hypothesis of the rest. -/
theorem Spec.bind_known {F : α → Prop} {p : Act I ε α} {f : α → Act I ε β} {Q' : β → σ → Prop}
    (hp : Spec D P p fun a _ => F a) (hf : ∀ a, F a → Spec D (fun _ => True) (f a) Q') :
    Spec D P (p >>= f) Q' := by
  refine hp.bind fun a => ?_
  exact (Spec.assume (hf a)).pre fun _ ha => ⟨ha, trivial⟩

/-- An action that makes only calls that may be made anywhere keeps what is stable. -/
theorem Only.spec {F : σ → Prop} {p : Act I ε α} (hp : Only D.Allows p)
    (hF : ∀ s s', D.rely s s' → F s → F s') : Spec D F p fun _ => F := by
  refine ⟨fun s hs => ?_⟩
  have hmeets : Prog.Meets D (fun _ _ => True) p s := Prog.Only.meets hp s
  exact (hmeets.frame hF hs).mono fun _ _ hr _ _ => hr.2

/-- What is stable stays. -/
theorem Spec.frame {F : σ → Prop} {p : Act I ε α} (hF : ∀ s s', D.rely s s' → F s → F s')
    (hp : Spec D P p Q) : Spec D (fun s => P s ∧ F s) p fun a s => Q a s ∧ F s :=
  ⟨fun s hs => ((hp.meets s hs.1).frame hF hs.2).mono fun _ _ hr a ha => ⟨hr.1 a ha, hr.2⟩⟩

/-- One call, from a stable precondition. -/
theorem Spec.tryCall {op : I.Op} {k : I.Res op → Except ε α}
    (hP : ∀ s s', D.rely s s' → P s → P s')
    (h : ∀ s, P s → D.inv s → D.promise op s ∧ ∀ r s', D.sem op s r s' →
      D.inv s' ∧ D.rely s s' ∧ ∀ a, k r = .ok a → Q a s') :
    Spec D P (tryCall op k) Q :=
  ⟨fun s hs s₁ hR hi => h s₁ (hP s s₁ hR hs) hi⟩

/-- One call that cannot fail. -/
theorem Spec.call {op : I.Op} {Q : I.Res op → σ → Prop}
    (hP : ∀ s s', D.rely s s' → P s → P s')
    (h : ∀ s, P s → D.inv s → D.promise op s ∧ ∀ r s', D.sem op s r s' →
      D.inv s' ∧ D.rely s s' ∧ Q r s') :
    Spec D P (call op : Act I ε (I.Res op)) Q := by
  refine Spec.tryCall hP fun s hs hi => ?_
  obtain ⟨hpromise, hstep⟩ := h s hs hi
  refine ⟨hpromise, fun r s' hop => ?_⟩
  obtain ⟨hi', hR', hQ⟩ := hstep r s' hop
  refine ⟨hi', hR', fun a ha => ?_⟩
  cases ha
  exact hQ

/-- One call that may be made with any history, and what is known of it afterwards. -/
theorem Spec.tryCall_own {D : Discipline (I.label I.History) σ} {P : I.History × σ → Prop}
    {op : I.Op} {k : I.Res op → Except ε α} (hallows : ∀ calls, D.Allows (calls, op))
    (hP : ∀ s s', D.own.rely s s' → P s → P s') :
    Spec D.own P (Act.tryCall op k) fun a s' =>
      P s' ∧ ∃ s r, P s ∧ D.inv s.2 ∧ k r = .ok a ∧ D.own.sem op s r s' := by
  refine Spec.tryCall hP fun s hs hi => ?_
  obtain ⟨hpromise, hstep⟩ := Discipline.Allows.own hallows s hi
  refine ⟨hpromise, fun r s' hop => ?_⟩
  obtain ⟨hi', hR'⟩ := hstep r s' hop
  exact ⟨hi', hR', fun a ha => ⟨hP s s' hR' hs, s, r, hs, hi, ha, hop⟩⟩

end Act

end Lib
