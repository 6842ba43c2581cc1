/-!
A bounded hand-off of rows to one receiver. Those who find no room wait in the order they came. Room
that becomes free goes to the first of them, who holds it until the row is sent; so nobody
overtakes.
-/
namespace RowReplay

/-- A hand-off of `α`, with those who wait named by `τ`. -/
structure HandOff (τ α : Type) where
  capacity : Nat
  /-- Sent and not yet received, the oldest first. -/
  queue : List α
  /-- Who holds room without having sent. -/
  granted : List τ
  /-- Who waits for room, the first come first. -/
  waiting : List τ
  /-- The receiver is there. -/
  isOpen : Bool

/-- The answer to a request for room. -/
inductive Room
  | granted
  | waiting
  | closed
  deriving DecidableEq

/-- What has become of an offer of something. -/
inductive Offer
  | accepted
  | refused
  /-- It waits for room. -/
  | waiting
  deriving DecidableEq

namespace HandOff

variable {τ α : Type} [DecidableEq τ]

/-- A hand-off with room for at least one. -/
def fresh (capacity : Nat) : HandOff τ α := ⟨max capacity 1, [], [], [], true⟩

/-- The room that nobody has. -/
def free (h : HandOff τ α) : Nat := h.capacity - h.queue.length - h.granted.length

/-- Asks for room. -/
def reserve (h : HandOff τ α) (t : τ) : HandOff τ α × Room :=
  if !h.isOpen then (h, .closed)
  else if 0 < h.free then ({ h with granted := h.granted ++ [t] }, .granted)
  else ({ h with waiting := h.waiting ++ [t] }, .waiting)

/-- What has become of a request for room. -/
def room (h : HandOff τ α) (t : τ) : Room :=
  if !h.isOpen then .closed else if t ∈ h.granted then .granted else .waiting

/-- Sends into the room held. -/
def send (h : HandOff τ α) (t : τ) (a : α) : HandOff τ α :=
  { h with queue := h.queue ++ [a], granted := h.granted.erase t }

/-- Room has become free: the first who waits gets it and is named. -/
def passRoom (h : HandOff τ α) : HandOff τ α × Option τ :=
  match h.waiting with
  | [] => (h, none)
  | t :: rest => ({ h with granted := h.granted ++ [t], waiting := rest }, some t)

/-- Takes the oldest; the second part is what was taken and who got its room. -/
def receive (h : HandOff τ α) : HandOff τ α × Option (α × Option τ) :=
  match h.queue with
  | [] => (h, none)
  | a :: rest =>
    let (h, next) := { h with queue := rest }.passRoom
    (h, some (a, next))

/-- Gives up a request, or the room it got. -/
def withdraw (h : HandOff τ α) (t : τ) : HandOff τ α × Option τ :=
  if t ∈ h.granted then { h with granted := h.granted.erase t }.passRoom
  else ({ h with waiting := h.waiting.erase t }, none)

/-- Offers `a`, which is sent at once if there is room. -/
def offer (h : HandOff τ α) (t : τ) (a : α) : HandOff τ α × Offer :=
  match h.reserve t with
  | (h, .granted) => (h.send t a, .accepted)
  | (h, .waiting) => (h, .waiting)
  | (h, .closed) => (h, .refused)

/-- Looks at an offer that waits; room that was granted comes before the time limit. The last part is
who gets the room that was given up. -/
def review (h : HandOff τ α) (t : τ) (a : α) (isDue : Bool) : HandOff τ α × Offer × Option τ :=
  match h.room t with
  | .granted => (h.send t a, .accepted, none)
  | .closed => (h, .refused, none)
  | .waiting =>
    if isDue then
      let (h, next) := h.withdraw t
      (h, .refused, next)
    else (h, .waiting, none)

/-- The receiver goes, and what is queued with it. Everyone who waited is refused and named. -/
def close (h : HandOff τ α) : HandOff τ α × List τ :=
  ({ h with queue := [], granted := [], waiting := [], isOpen := false }, h.waiting)

end HandOff

end RowReplay
