import DelayBasedForwarding.Library.Runs
import Mathlib.Data.List.Basic
import Mathlib.Order.Basic

/-!
# First-come-first-served servers

A server has a queue.  Customers arrive at its end, and while the server is idle the first
one departs; the server is then busy until it is free again.  No time passes while a
customer waits at an idle server.
-/

namespace FifoServers

open TransitionRuns

variable {α τ : Type*}

structure Server (α τ : Type*) where
  now : τ
  queue : List α
  idle : Bool

inductive Event (α τ : Type*) where
  | arrive (time : τ) (customer : α)
  | free (time : τ)
  | depart (time : τ) (customer : α)

def Event.arrival : Event α τ → Option α
  | .arrive _ customer => some customer
  | .free _ => none
  | .depart _ _ => none

def Event.departure : Event α τ → Option (τ × α)
  | .arrive _ _ => none
  | .free _ => none
  | .depart time customer => some (time, customer)

variable [Preorder τ]

/-- Time passes, but not while a customer waits at an idle server. -/
def Passes (s : Server α τ) (time : τ) : Prop :=
  s.now ≤ time ∧ (s.idle = true → s.queue ≠ [] → time = s.now)

inductive Step : Server α τ → Event α τ → Server α τ → Prop where
  | arrive {s : Server α τ} {time : τ} (customer : α) : Passes s time →
      Step s (.arrive time customer) { s with now := time, queue := s.queue ++ [customer] }
  | free {s : Server α τ} {time : τ} : Passes s time → s.idle = false →
      Step s (.free time) { s with now := time, idle := true }
  | depart {s : Server α τ} {time : τ} {customer : α} {rest : List α} : Passes s time →
      s.idle = true → s.queue = customer :: rest →
      Step s (.depart time customer) { now := time, queue := rest, idle := false }

variable {start s : Server α τ} {history : List (Transition (Server α τ) (Event α τ))}

end FifoServers
