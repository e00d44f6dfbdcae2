import Mathlib.Tactic
import ComputeRelay.Lib.Text

/-!
# The request pacer

`RequestPacer` of `internal/provider/kaggle/kaggleapi/request_pacing.go`. Goroutines call `acquire`
for their scope, hold it until `release`, and `remember` a cooldown of the server while they hold
it.

The lock of the pacer makes each of its sections one step: `locked` is the section in the loop of
`acquire`. Between two sections a goroutine sleeps, or waits for the channel of the holder to be
closed; what it saw before may have changed by then. Entries are reached through pointers, as in the
source: the function that `acquire` returns keeps the pointer of its entry, whatever happens to the
map of scopes. Times are nanoseconds since the zero time.
-/

namespace ComputeRelay
namespace Kaggle

open Text

def maxRequestScopes : ℕ := 1024

/-- `^[a-z0-9][a-z0-9_-]{1,49}$` -/
def accountName (scope : String) : Bool :=
  match bytes scope with
  | [] => false
  | b :: rest => (lower b || digit b) && 1 ≤ rest.length && rest.length ≤ 49 &&
      rest.all fun b => lower b || digit b || b = 95 || b = 45

/-- The gaps that a pacer is made with. -/
structure Gaps where
  account : ℤ
  provider : ℤ

structure RequestScope where
  next : ℤ := 0
  cooldown : ℤ := 0
  active : Option ℕ := none
  deriving DecidableEq

/-- The pacer: the map of scopes, the entries behind its pointers and the channels. The pointers and
channels below `pointers` and `channels` have been made. -/
structure RequestPacer where
  scopes : List (String × ℕ) := []
  heap : ℕ → RequestScope := fun _ => {}
  pointers : ℕ := 0
  channels : ℕ := 0
  closedChannels : List ℕ := []
  providerNext : ℤ := 0
  providerUntil : ℤ := 0
  stateErr : Bool := false
  closed : Bool := false

/-- `latest` -/
def latest (values : List ℤ) : ℤ := values.foldl max 0

/-- What a goroutine is doing. -/
inductive Routine
  | idle
  | acquiring (scope : String)
  | waiting (scope : String) (channel : ℕ)
  | sleeping (scope : String)
  | holding (scope : String) (entry : ℕ)
  deriving DecidableEq

namespace RequestPacer

/-- Entries that carry nothing for the future. -/
def idle (p : RequestPacer) (now : ℤ) (entry : ℕ) : Bool :=
  (p.heap entry).active.isNone && (p.heap entry).next ≤ now && (p.heap entry).cooldown ≤ now

/-- Make room for a new scope. -/
def evict (p : RequestPacer) (now : ℤ) : RequestPacer :=
  { p with scopes := p.scopes.filter fun s => !p.idle now s.2 }

/-- The entry of a scope, which is made if there is none; no answer is `ErrLimit`. -/
def entry (p : RequestPacer) (now : ℤ) (scope : String) : RequestPacer × Option ℕ :=
  match p.scopes.lookup scope with
  | some i => (p, some i)
  | none =>
    let p := p.evict now
    if maxRequestScopes ≤ p.scopes.length then (p, none)
    else
      ({ p with
        scopes := (scope, p.pointers) :: p.scopes
        heap := Function.update p.heap p.pointers {}
        pointers := p.pointers + 1 }, some p.pointers)

/-- Reserve the next send. -/
def grant (gaps : Gaps) (p : RequestPacer) (now jitter : ℤ) (i : ℕ) : RequestPacer :=
  { p with
    heap := Function.update p.heap i
      { p.heap i with next := now + (gaps.account + jitter), active := some p.channels }
    channels := p.channels + 1
    providerNext := now + gaps.provider }

/-- One section under the lock in the loop of `acquire`. -/
def locked (gaps : Gaps) (p : RequestPacer) (now jitter : ℤ) (scope : String) :
    RequestPacer × Routine :=
  if p.closed || p.stateErr then (p, .idle)
  else match p.entry now scope with
    | (p, none) => (p, .idle)
    | (p, some i) =>
      match (p.heap i).active with
      | some channel => (p, .waiting scope channel)
      | none =>
        if latest [p.providerUntil, (p.heap i).cooldown, p.providerNext, (p.heap i).next] ≤ now then
          (p.grant gaps now jitter i, .holding scope i)
        else (p, .sleeping scope)

/-- What `acquire` returns: close the channel of the entry. No answer would be a panic. -/
def release (p : RequestPacer) (i : ℕ) : Option RequestPacer :=
  (p.heap i).active.map fun channel =>
    { p with
      heap := Function.update p.heap i { p.heap i with active := none }
      closedChannels := channel :: p.closedChannels }

/-- The end of a cooldown that is remembered at `now`, and how saving it went. No answer would be a
panic. -/
def remember (p : RequestPacer) (now delay : ℤ) (scope : String) (saved : Bool) :
    Option RequestPacer :=
  if accountName scope then
    (p.scopes.lookup scope).map fun i =>
      { p with
        heap := Function.update p.heap i
          { p.heap i with cooldown := latest [(p.heap i).cooldown, now + delay] }
        stateErr := !saved }
  else some { p with providerUntil := latest [p.providerUntil, now + delay], stateErr := !saved }

end RequestPacer

/-! ### Any number of goroutines -/

/-- What happened, for the record: a send was granted, or a cooldown was remembered for an account
or for the provider. -/
inductive Fact
  | granted (scope : String) (at_ : ℤ)
  | cooldown (account : Option String) (until_ : ℤ)
  deriving DecidableEq

structure World where
  pacer : RequestPacer := {}
  routine : ℕ → Routine := fun _ => .idle
  clock : ℤ := 0
  log : List Fact := []

inductive Label
  /-- A goroutine calls `acquire`. -/
  | call (g : ℕ) (scope : String)
  /-- It enters the section under the lock. -/
  | enter (g : ℕ) (now jitter : ℤ)
  /-- It wakes up: the sleep is over, or the channel is closed. -/
  | wake (g : ℕ)
  /-- Its context ends, or its deadline is too near. -/
  | giveUp (g : ℕ)
  | remember (g : ℕ) (now delay : ℤ) (saved : Bool)
  | release (g : ℕ)
  | close

/-- The largest `time.Duration`. -/
def maxDuration : ℤ := 2 ^ 63 - 1

/-- One step. The clock does not go back, the jitter is not negative, and its sum with the gap of an
account is a duration. -/
def step (gaps : Gaps) (w : World) : Label → Option World
  | .call g scope =>
    match w.routine g with
    | .idle => some { w with routine := Function.update w.routine g (.acquiring scope) }
    | _ => none
  | .enter g now jitter =>
    match w.routine g with
    | .acquiring scope =>
      if w.clock ≤ now ∧ 0 ≤ jitter ∧ gaps.account + jitter ≤ maxDuration then
        let (p, r) := w.pacer.locked gaps now jitter scope
        some {
          pacer := p
          routine := Function.update w.routine g r
          clock := now
          log := match r with
            | .holding .. => w.log ++ [.granted scope now]
            | _ => w.log }
      else none
    | _ => none
  | .wake g =>
    match w.routine g with
    | .sleeping scope => some { w with routine := Function.update w.routine g (.acquiring scope) }
    | .waiting scope channel =>
      if channel ∈ w.pacer.closedChannels then
        some { w with routine := Function.update w.routine g (.acquiring scope) }
      else none
    | _ => none
  | .giveUp g =>
    match w.routine g with
    | .holding .. => none
    | _ => some { w with routine := Function.update w.routine g .idle }
  | .remember g now delay saved =>
    match w.routine g with
    | .holding scope _ =>
      if w.clock ≤ now then
        (w.pacer.remember now delay scope saved).map fun p =>
          { w with
            pacer := p
            clock := now
            log := w.log ++
              [.cooldown (if accountName scope then some scope else none) (now + delay)] }
      else none
    | _ => none
  | .release g =>
    match w.routine g with
    | .holding _ i =>
      (w.pacer.release i).map fun p =>
        { w with pacer := p, routine := Function.update w.routine g .idle }
    | _ => none
  | .close => some { w with pacer := { w.pacer with closed := true } }

end Kaggle
end ComputeRelay
