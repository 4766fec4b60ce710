import Mathlib.Tactic

/-! Two parties with an ordered queue in either direction. -/
namespace Duplex

variable {σ ρ α β τ : Type} [DecidableEq α]

/-- How a party sends a message and takes a packet, at a moment of `τ`. -/
structure Port (σ α β τ : Type) where
  send : σ → α → σ × Option β
  receive : σ → τ → β → σ × Option α

/-- The parties and the packets between them, each with the message that was put into it. -/
structure World (σ ρ α β : Type) where
  left : σ
  right : ρ
  toRight : List (β × α)
  toLeft : List (β × α)

inductive Event (α τ : Type)
  | leftSends (message : α)
  | rightSends (message : α)
  | leftReceives (time : τ)
  | rightReceives (time : τ)

namespace Event

/-- Every message sent is one that the side it is sent from may send. -/
def Fits (fits : α → Prop) : Event α τ → Prop
  | leftSends message | rightSends message => fits message
  | _ => True

def fromLeft : Event α τ → ℕ
  | leftSends _ => 1
  | _ => 0

def fromRight : Event α τ → ℕ
  | rightSends _ => 1
  | _ => 0

end Event

/-- How many messages the left side sends. -/
def leftSent (events : List (Event α τ)) : ℕ := (events.map Event.fromLeft).sum

def rightSent (events : List (Event α τ)) : ℕ := (events.map Event.fromRight).sum

variable (p : Port σ α β τ) (q : Port ρ α β τ)

/-- One event. There is no next world once a message is refused or comes out different. -/
def step (w : World σ ρ α β) : Event α τ → Option (World σ ρ α β)
  | .leftSends message =>
    match p.send w.left message with
    | (left, some packet) => some { w with left, toRight := w.toRight ++ [(packet, message)] }
    | (_, none) => none
  | .rightSends message =>
    match q.send w.right message with
    | (right, some packet) => some { w with right, toLeft := w.toLeft ++ [(packet, message)] }
    | (_, none) => none
  | .leftReceives time =>
    match w.toLeft with
    | [] => some w
    | (packet, message) :: rest =>
      let r := p.receive w.left time packet
      if r.2 = some message then some { w with left := r.1, toLeft := rest } else none
  | .rightReceives time =>
    match w.toRight with
    | [] => some w
    | (packet, message) :: rest =>
      let r := q.receive w.right time packet
      if r.2 = some message then some { w with right := r.1, toRight := rest } else none

/-- The world after a run in which every message has been taken and every packet read right. -/
def run (w : World σ ρ α β) : List (Event α τ) → Option (World σ ρ α β)
  | [] => some w
  | event :: events =>
    match step p q w event with
    | some w' => run w' events
    | none => none

/-- The parties are awake whenever a packet reaches them. -/
def Awake (left : σ → τ → Prop) (right : ρ → τ → Prop) (w : World σ ρ α β) : Event α τ → Prop
  | .leftReceives time => w.toLeft ≠ [] → left w.left time
  | .rightReceives time => w.toRight ≠ [] → right w.right time
  | _ => True

/-- Every event of a run meets a condition on the world it happens in. -/
def Along (ok : World σ ρ α β → Event α τ → Prop) (w : World σ ρ α β) :
    List (Event α τ) → Prop
  | [] => True
  | event :: events =>
    ok w event ∧ ∀ w', step p q w event = some w' → Along ok w' events

variable {p q} {fits : α → Prop} {left : σ → τ → Prop} {right : ρ → τ → Prop}
  {Inv : World σ ρ α β → ℕ → ℕ → Prop} {w : World σ ρ α β}

/-- An invariant of the world and of the numbers of messages that are still to be sent. -/
structure Keeps (p : Port σ α β τ) (q : Port ρ α β τ) (fits : α → Prop) (left : σ → τ → Prop)
    (right : ρ → τ → Prop) (Inv : World σ ρ α β → ℕ → ℕ → Prop) : Prop where
  leftSends : ∀ {w n k message}, Inv w (n + 1) k → fits message →
    ∃ l packet, p.send w.left message = (l, some packet) ∧
      Inv { w with left := l, toRight := w.toRight ++ [(packet, message)] } n k
  rightSends : ∀ {w n k message}, Inv w n (k + 1) → fits message →
    ∃ r packet, q.send w.right message = (r, some packet) ∧
      Inv { w with right := r, toLeft := w.toLeft ++ [(packet, message)] } n k
  leftReceives : ∀ {w n k time packet message rest}, Inv w n k →
    w.toLeft = (packet, message) :: rest → left w.left time →
    ∃ l, p.receive w.left time packet = (l, some message) ∧
      Inv { w with left := l, toLeft := rest } n k
  rightReceives : ∀ {w n k time packet message rest}, Inv w n k →
    w.toRight = (packet, message) :: rest → right w.right time →
    ∃ r, q.receive w.right time packet = (r, some message) ∧
      Inv { w with right := r, toRight := rest } n k

theorem Keeps.step (h : Keeps p q fits left right Inv) {event : Event α τ} {n k : ℕ}
    (hw : Inv w (n + event.fromLeft) (k + event.fromRight)) (hfits : event.Fits fits)
    (hawake : Awake left right w event) :
    ∃ w', Duplex.step p q w event = some w' ∧ Inv w' n k := by
  cases event with
  | leftSends message =>
    obtain ⟨l, packet, hsend, hinv⟩ := h.leftSends hw hfits
    refine ⟨_, ?_, hinv⟩
    simp only [Duplex.step, hsend]
  | rightSends message =>
    obtain ⟨r, packet, hsend, hinv⟩ := h.rightSends hw hfits
    refine ⟨_, ?_, hinv⟩
    simp only [Duplex.step, hsend]
  | leftReceives time =>
    cases hq : w.toLeft with
    | nil => exact ⟨w, by simp only [Duplex.step, hq], hw⟩
    | cons head rest =>
      obtain ⟨packet, message⟩ := head
      obtain ⟨l, hreceive, hinv⟩ := h.leftReceives hw hq (hawake (by simp [hq]))
      refine ⟨_, ?_, hinv⟩
      simp only [Duplex.step, hq, hreceive, if_true]
  | rightReceives time =>
    cases hq : w.toRight with
    | nil => exact ⟨w, by simp only [Duplex.step, hq], hw⟩
    | cons head rest =>
      obtain ⟨packet, message⟩ := head
      obtain ⟨r, hreceive, hinv⟩ := h.rightReceives hw hq (hawake (by simp [hq]))
      refine ⟨_, ?_, hinv⟩
      simp only [Duplex.step, hq, hreceive, if_true]

/-- A world with a kept invariant gets through every run that its counts allow. -/
theorem Keeps.run (h : Keeps p q fits left right Inv) {events : List (Event α τ)}
    (hfits : ∀ event ∈ events, event.Fits fits)
    (hawake : Along p q (Awake left right) w events) {n k : ℕ}
    (hw : Inv w (n + leftSent events) (k + rightSent events)) :
    ∃ w', Duplex.run p q w events = some w' ∧ Inv w' n k := by
  induction events generalizing w with
  | nil => exact ⟨w, rfl, hw⟩
  | cons event events ih =>
    obtain ⟨hnow, hlater⟩ := hawake
    have hcounts : Inv w (n + leftSent events + event.fromLeft)
        (k + rightSent events + event.fromRight) := by
      convert hw using 1 <;>
        simp only [leftSent, rightSent, List.map_cons, List.sum_cons] <;> omega
    obtain ⟨w', hstep, hinv⟩ := h.step hcounts (hfits event List.mem_cons_self) hnow
    obtain ⟨w'', hrun, hend⟩ := ih (fun e he => hfits e (List.mem_cons_of_mem _ he))
      (hlater w' hstep) hinv
    exact ⟨w'', by simp only [Duplex.run, hstep, hrun], hend⟩

end Duplex
