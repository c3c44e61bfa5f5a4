import Upkeeper.Buddy.Acknowledge
/-!
# What surrounds a flush

The signals that are still to come, the answers of `socket` and `connect`, and the far end of the connection, which can
be anything that answers the calls for a record: a list of outcomes, or a model of the controller. The surroundings keep
a log of what the signal handler records in the ring and of what it overwrites there.
-/

namespace Upkeeper

/-- The far end of a connection: what a new connection does to it, and how it answers the calls for a record -/
structure FarEnd (κ : Type*) where
  connect : κ → κ
  exchange : Bool → BuddyInfo → κ → Exchange × κ

structure Surroundings (κ : Type*) where
  signals : List (List (Siginfo × Reaped))
  homes : List (Int × Bool)
  far : κ
  recorded : List Record
  overwritten : List Record

namespace Surroundings

variable {κ : Type*} (e : FarEnd κ)

/-- Note that `r` goes to the current slot of `b`. -/
def note (b : Buddy) (r : Record) (s : Surroundings κ) : Surroundings κ :=
  { s with
    recorded := s.recorded ++ [r]
    overwritten := s.overwritten ++ (b.ring.head?.bind BuddyInfo.held).toList }

/-- The handler records a child. -/
def reap (si : Siginfo) (z : Reaped) (b : Buddy) (s : Surroundings κ) : Buddy × Surroundings κ :=
  (b.reap si z, s.note b (b.reapRecord si z))

/-- The signal handler runs with the next signals, if `SIGCHLD` is not blocked. -/
def interrupt (b : Buddy) (s : Surroundings κ) : Buddy × Surroundings κ :=
  if sigchld ∈ b.mask then (b, s)
  else
    match s.signals with
    | [] => (b, s)
    | zs :: signals => zs.foldl (fun t z => reap z.1 z.2 t.1 t.2) (b, { s with signals := signals })

def connect (s : Surroundings κ) : (Int × Bool) × Surroundings κ :=
  match s.homes with
  | [] => ((-1, false), s)
  | home :: homes => (home, { s with homes := homes, far := e.connect s.far })

/-- The calls for a record -/
def exchange (connected : Bool) (info : BuddyInfo) (s : Surroundings κ) : Exchange × Surroundings κ :=
  ((e.exchange connected info s.far).1, { s with far := (e.exchange connected info s.far).2 })

def outside : Outside (Surroundings κ) := ⟨interrupt, connect e, exchange e⟩

variable {e} {P : Buddy → Surroundings κ → Prop} {b : Buddy} {s : Surroundings κ}

theorem interrupt_keeps (hsignals : ∀ b s signals, P b s → P b { s with signals := signals })
    (hreap : ∀ b s si z, P b s → P (b.reap si z) (s.note b (b.reapRecord si z))) (h : P b s) :
    P (s.interrupt b).1 (s.interrupt b).2 := by
  have hreaps : ∀ (zs : List (Siginfo × Reaped)) b s, P b s →
      P (zs.foldl (fun t z => reap z.1 z.2 t.1 t.2) (b, s)).1 (zs.foldl (fun t z => reap z.1 z.2 t.1 t.2) (b, s)).2 := by
    intro zs
    induction zs with
    | nil => exact fun b s h => h
    | cons z zs ih => exact fun b s h => ih _ _ (hreap b s z.1 z.2 h)
  unfold interrupt
  split
  · exact h
  · split
    · exact h
    · next zs signals _ => exact hreaps zs b _ (hsignals b s signals h)

theorem beforeLoop_keeps (hsignals : ∀ b s signals, P b s → P b { s with signals := signals })
    (hreap : ∀ b s si z, P b s → P (b.reap si z) (s.note b (b.reapRecord si z)))
    (hack : ∀ b s ack, P b s → P { b with ack := ack } s)
    (hconnect : ∀ b s fd homes far, P b s → (far = s.far ∨ far = e.connect s.far) →
      P { b with ctrlfd := fd } { s with homes := homes, far := far })
    (cfg : BuddyConfig) (h : P b s) :
    P (Buddy.beforeLoop (outside e) cfg b s).1 (Buddy.beforeLoop (outside e) cfg b s).2 := by
  refine Buddy.phoneHome_keeps (o := outside e) (fun _ _ h => interrupt_keeps hsignals hreap h) ?_ cfg
    (interrupt_keeps hsignals hreap (hack b s b.thisCommand h))
  intro b s h
  show P { b with ctrlfd := (connect e s).1.1 } (connect e s).2
  unfold connect
  split
  · exact hconnect b s (-1) s.homes s.far h (Or.inl rfl)
  · next home homes _ => exact hconnect b s home.1 homes _ h (Or.inr rfl)

end Surroundings

end Upkeeper
