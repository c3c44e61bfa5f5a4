import Upkeeper.Network.Types
import Upkeeper.UpkList.Filter
/-!
# Dropping closed connections (`upk_net_flush_closed_sockets`)

A pass over the list of handles that unlinks those with `fd < 0`, and releases first what they own. It is a pass of
`unlinkIf`, so it keeps every open connection exactly when the closed ones are spaced.
-/

namespace Upkeeper

open UpkList (Rep Filtered Spaced)

variable {κ : Type}

/-- What is given back when a handle is dropped -/
inductive Release (κ : Type)
  | userdata (freeFunc : Option κ) (p : Addr)
  | state
  deriving DecidableEq

/-- `userdata` goes to its free-function, or to `free`; the state is freed with its callback stack. -/
def ConnHandle.releases (h : ConnHandle κ) : List (Release κ) :=
  (h.userdata.map fun p => .userdata h.userdataFreeFunc p).toList ++ (h.state.map fun _ => .state).toList

/-- The body of the pass -/
def flushClosed : UpkList (ConnHandle κ) × List (Release κ) → Option (UpkList (ConnHandle κ) × List (Release κ))
  | (handles, w) => do
    let a ← handles.thisp
    let c ← handles.heap a
    if c.val.fd < 0 then do
      let handles ← handles.unlink
      some (handles, w ++ c.val.releases)
    else some (handles, w)

/-- `upk_net_flush_closed_sockets`, and what it releases -/
def upkNetFlushClosedSockets (fuel : Nat) (handles : UpkList (ConnHandle κ)) :
    Option (UpkList (ConnHandle κ) × List (Release κ)) := handles.foreach flushClosed fuel []

/-- The handles that are dropped -/
def isClosed (_ : Addr) (h : ConnHandle κ) : Bool := h.fd < 0

/-- What a visit adds to what is released -/
def releaseClosed (w : List (Release κ)) (_ : Addr) (h : ConnHandle κ) : List (Release κ) :=
  if h.fd < 0 then w ++ h.releases else w

theorem flushClosed_eq : @flushClosed κ = UpkList.unlinkIf isClosed releaseClosed := by
  funext ⟨handles, w⟩
  unfold flushClosed UpkList.unlinkIf isClosed releaseClosed
  simp only [Option.bind_eq_bind, Option.bind_some, decide_eq_true_eq]
  refine congrArg _ (funext fun a => congrArg _ (funext fun c => ?_))
  by_cases hfd : c.val.fd < 0
  · simp only [if_pos hfd]
  · simp only [if_neg hfd]

theorem effects_visit {α : Type} {L : UpkList α} {l : List Addr} (h : ∀ a ∈ l, ∃ n, L.next a = some n) :
    ∀ w, UpkList.effects L (fun w a _ => w ++ [a]) w l = w ++ l := by
  induction l with
  | nil =>
    intro w
    rw [List.append_nil]
    rfl
  | cons a l ih =>
    intro w
    obtain ⟨n, hn⟩ := h a List.mem_cons_self
    obtain ⟨v, hv⟩ := UpkList.next_eq_some.mp hn
    have hval : L.val? a = some v := by rw [UpkList.val?, hv]; rfl
    unfold UpkList.effects
    rw [List.foldl_cons, hval]
    show UpkList.effects L _ (w ++ [a]) l = _
    rw [ih (fun b hb => h b (List.mem_cons_of_mem _ hb)), List.append_assoc]
    rfl

/-- Three connections with these descriptors -/
def threeHandles (fd₀ fd₁ fd₂ : Int) : UpkList (ConnHandle Unit) where
  heap
    | 0 => some ⟨some 1, (Net.new fd₀ [] ()).toConnHandle⟩
    | 1 => some ⟨some 2, (Net.new fd₁ [] ()).toConnHandle⟩
    | 2 => some ⟨none, (Net.new fd₂ [] ()).toConnHandle⟩
    | _ => none
  fresh := 3
  head := some 0
  tail := some 2
  prevp := none
  nextp := none
  tempp := none
  thisp := none
  count := 3

theorem threeHandles_rep (fd₀ fd₁ fd₂ : Int) : Rep (threeHandles fd₀ fd₁ fd₂) [0, 1, 2] :=
  ⟨⟨rfl, _, rfl, rfl, _, rfl, rfl, _, rfl, rfl⟩, rfl, rfl⟩

end Upkeeper
