import R8Protocol.Mobility.Terms
import R8Protocol.Session.Channel

/-! The two ends of an association: an end moves only where its peer has followed it to. -/
namespace R8.Mobility.Pair

open FixedWidth Wire Session Session.Channel

/-- The two managers, the controls each has handed out and the moves each was asked for, newest
first. -/
structure World where
  ends : Side → Mobility.World
  sent : Side → List Control
  moves : Side → List Move

inductive Event
  | call (side : Side) (call : Call)
  | answer (side : Side) (p : Previewed)

namespace World

variable (C : Crypto) (m : Side → Manager)

def step (w : World) : Event → World
  | .call side call =>
    { ends := Function.update w.ends side ((w.ends side).step C (m side) call)
      sent := Function.update w.sent side ((w.ends side).emitted C (m side) call ++ w.sent side)
      moves := Function.update w.moves side (call.move?.toList ++ w.moves side) }
  | .answer side p =>
    { w with
      sent := Function.update w.sent side ((w.ends side).answer C (m side) p ++ w.sent side) }

/-- Two new managers that agree where each of them is, with nothing said yet. -/
structure Starts (secret : Side → Bytes 32) (w : World) : Prop where
  fresh : ∀ side, Mobility.World.Starts C (m side) (secret side) (w.ends side)
  mirrored : ∀ side, (w.ends side).state.localLoc = (w.ends side.peer).state.peerLoc
  silent : ∀ side, w.sent side = []
  still : ∀ side, w.moves side = []

/-- The session delivers what the peer has handed out: in any order, any number of times or never.
A candidate id is not used for two moves. -/
def Allowed (w : World) : Event → Prop
  | .call side call => (w.ends side).Owned (m side) call ∧
      (∀ b ∈ call.plaintext?, ∃ c ∈ w.sent side.peer, b = c.encode) ∧
      ∀ x ∈ call.move?, ∀ y ∈ w.moves side, y.candidateId = x.candidateId → y = x
  | .answer side p => p ∈ (w.ends side).issued

abbrev Reach (secret : Side → Bytes 32) (w : World) : Prop :=
  Machine.Reach (Starts C m secret) (step C m) (Allowed m) w

/-- The candidates a side has installed. -/
def Installs (w : World) (side : Side) (id : CandidateId) (epoch : U64) : Prop :=
  ∃ i ∈ (w.ends side).installed, i.candidateId = id ∧ i.epoch = epoch

/-- The whole run as one side sees it; `home` is where the sides start. -/
def terms (home : Side → Loc) (w : World) (side : Side) : Terms where
  localLoc := home side
  peerLoc := home side.peer
  offered x := x ∈ w.moves side
  installs := w.Installs side
  told x := x ∈ w.moves side.peer
  granted := w.Installs side.peer

/-- Each side has run under the terms, and whatever was said is true. -/
structure Truthful (secret : Side → Bytes 32) (home : Side → Loc) (w : World) : Prop where
  runs : ∀ side, Mobility.World.ReachUnder C (m side) (secret side) (w.terms home side)
    (w.ends side)
  said : ∀ side, ∀ c ∈ w.sent side, c.Sound (· ∈ w.moves side) (w.Installs side)
  distinct : ∀ side, Distinct (· ∈ w.moves side)

variable {C m} {secret : Side → Bytes 32} {home : Side → Loc} {w w' : World} {event : Event}

/-- Nothing is forgotten: neither a move nor an install. -/
structure Grows (w w' : World) : Prop where
  moves : ∀ side x, x ∈ w.moves side → x ∈ w'.moves side
  installed : ∀ side i, i ∈ (w.ends side).installed → i ∈ (w'.ends side).installed

theorem Grows.installs (hg : Grows w w') (side : Side) (id : CandidateId) (epoch : U64)
    (h : w.Installs side id epoch) : w'.Installs side id epoch := by
  obtain ⟨i, hi, hkey⟩ := h
  exact ⟨i, hg.installed side i hi, hkey⟩

theorem Grows.keeps (hg : Grows w w') {side : Side} {m : Manager} {e : Mobility.World} {call : Call}
    (h : e.Keeps m (w.terms home side) call) : e.Keeps m (w'.terms home side) call :=
  h.mono (hg.moves side) (hg.moves side.peer) (hg.installs side) (hg.installs side.peer)

theorem Grows.runs (hg : Grows w w') {side : Side} {m : Manager} {key : Bytes 32}
    {e : Mobility.World} (h : Mobility.World.ReachUnder C m key (w.terms home side) e) :
    Mobility.World.ReachUnder C m key (w'.terms home side) e := by
  induction h with
  | start hs => exact .start hs
  | next _ hk ih => exact .next ih (hg.keeps hk)

theorem Grows.sound (hg : Grows w w') {side : Side} {c : Control}
    (h : c.Sound (· ∈ w.moves side) (w.Installs side)) :
    c.Sound (· ∈ w'.moves side) (w'.Installs side) :=
  h.mono (hg.moves side) (hg.installs side)

theorem step_grows (w : World) (event : Event) : Grows w (w.step C m event) := by
  cases event with
  | answer side p => exact ⟨fun _ _ h => h, fun _ _ h => h⟩
  | call side call =>
    constructor
    · intro side' x hx
      by_cases hs : side' = side
      · subst hs
        simp only [step, Function.update_self]
        exact List.mem_append_right _ hx
      · simpa only [step, Function.update_of_ne hs] using hx
    · intro side' i hi
      by_cases hs : side' = side
      · subst hs
        simp only [step, Function.update_self]
        exact List.mem_append_right _ hi
      · simpa only [step, Function.update_of_ne hs] using hi

theorem distinct_step (ha : Allowed m w event) (h : ∀ side, Distinct (· ∈ w.moves side)) :
    ∀ side, Distinct (· ∈ (w.step C m event).moves side) := by
  cases event with
  | answer side p => exact h
  | call side call =>
    intro side'
    by_cases hs : side' = side
    swap
    · simpa only [step, Function.update_of_ne hs] using h side'
    subst hs
    simp only [step, Function.update_self]
    intro x y hx hy hid
    obtain ⟨-, -, hfresh⟩ := ha
    rcases List.mem_append.mp hx with hx | hx <;> rcases List.mem_append.mp hy with hy | hy
    · rw [Option.mem_toList] at hx hy
      exact Option.some.inj (hx.symm.trans hy)
    · exact (hfresh x (Option.mem_toList.mp hx) y hy hid.symm).symm
    · exact hfresh y (Option.mem_toList.mp hy) x hx hid
    · exact h side' x y hx hy hid

/-- A call at one side keeps to the terms of the run that it extends. -/
theorem keeps_of_allowed {side : Side} {call : Call} (ha : Allowed m w (.call side call))
    (h : Truthful C m secret home w) :
    (w.ends side).Keeps (m side) ((w.step C m (.call side call)).terms home side) call := by
  have hg := step_grows (C := C) (m := m) w (.call side call)
  obtain ⟨howned, hheard, -⟩ := ha
  refine ⟨howned, ?_, ?_, ?_⟩
  · intro b hb
    obtain ⟨c, hc, rfl⟩ := hheard b hb
    exact .encode (hg.sound (h.said side.peer c hc))
  · intro x hx
    simp only [terms, step, Function.update_self]
    exact List.mem_append_left _ (Option.mem_toList.mpr hx)
  · intro a hmem i hinst
    refine ⟨i, ?_, rfl, rfl⟩
    simp only [step, Function.update_self]
    exact List.mem_append_left _ (List.mem_reverse.mpr (List.mem_filterMap.mpr ⟨a, hmem, hinst⟩))

theorem truthful_step (h3 : ∀ side, (m side).profile ≠ 3) (ha : Allowed m w event)
    (h : Truthful C m secret home w) : Truthful C m secret home (w.step C m event) := by
  have hg := step_grows (C := C) (m := m) w event
  have hdistinct := distinct_step (C := C) ha h.distinct
  cases event with
  | answer side p =>
    refine ⟨h.runs, ?_, hdistinct⟩
    intro side' c hc
    by_cases hs : side' = side
    swap
    · simp only [step, Function.update_of_ne hs] at hc
      exact h.said side' c hc
    subst hs
    simp only [step, Function.update_self] at hc
    rcases List.mem_append.mp hc with hc | hc
    · exact ((h.runs side').faithful (h3 side') (h.distinct side'.peer)).answer_sound ha c hc
    · exact h.said side' c hc
  | call side call =>
    have hkeeps := keeps_of_allowed (C := C) ha h
    refine ⟨?_, ?_, hdistinct⟩
    · intro side'
      by_cases hs : side' = side
      · subst hs
        have hnext := Machine.Reach.next (hg.runs (h.runs side')) hkeeps
        simpa only [step, Function.update_self] using hnext
      · have hrun := hg.runs (h.runs side')
        simpa only [step, Function.update_of_ne hs] using hrun
    · intro side' c hc
      by_cases hs : side' = side
      swap
      · simp only [step, Function.update_of_ne hs] at hc
        exact hg.sound (h.said side' c hc)
      subst hs
      simp only [step, Function.update_self] at hc
      rcases List.mem_append.mp hc with hc | hc
      · have hfaithful := (hg.runs (h.runs side')).faithful (h3 side') (hdistinct side'.peer)
        exact hfaithful.emitted_sound hkeeps.offers c hc
      · exact hg.sound (h.said side' c hc)

theorem truthful_start (hs : Starts C m secret w) :
    Truthful C m secret (fun side => (w.ends side).state.localLoc) w where
  runs side := by
    refine .start ⟨hs.fresh side, rfl, ?_⟩
    have hmirrored := hs.mirrored side.peer
    rw [Side.peer_peer] at hmirrored
    exact hmirrored.symm
  said side c hc := by simp [hs.silent side] at hc
  distinct side x y hx := by simp [hs.still side] at hx

theorem Reach.truthful (h3 : ∀ side, (m side).profile ≠ 3) (h : Reach C m secret w) :
    ∃ home, Truthful C m secret home w := by
  apply Machine.Reach.invariant (I := fun w => ∃ home, Truthful C m secret home w) _ _ h
  · exact fun w hs => ⟨_, truthful_start hs⟩
  · intro w event ⟨home, hw⟩ ha
    exact ⟨home, truthful_step h3 ha hw⟩

end World

/-- An epoch on a log is above zero. -/
theorem ascends_pos {epochs : List U64} {current epoch : U64} (h : Ascends epochs current)
    (he : epoch ∈ epochs) : 0 < epoch :=
  List.pairwise_append.mp h.1 |>.2.2 epoch he 0 (by simp)

/-- No two entries of a log are of one epoch. -/
theorem ascends_nodup {epochs : List U64} {current : U64} (h : Ascends epochs current) :
    epochs.Nodup :=
  ((List.pairwise_append.mp h.1).1.imp fun hlt => (ne_of_lt hlt).symm)

/-- A log whose epochs all stand on another one stands on it in the same order. -/
theorem ascends_sublist {mine theirs : List U64} {current current' : U64}
    (h : Ascends mine current) (h' : Ascends theirs current') (hsub : mine ⊆ theirs) :
    mine.Sublist theirs := by
  have hperm := List.subperm_of_subset (ascends_nodup h) hsub
  exact List.sublist_of_subperm_of_pairwise hperm (List.pairwise_append.mp h.1).1
    (List.pairwise_append.mp h'.1).1

/-- Installs of one epoch are one install. -/
theorem install_unique {installed : List Install} {current : U64} {i j : Install}
    (h : Ascends (installed.map Install.epoch) current) (hi : i ∈ installed) (hj : j ∈ installed)
    (he : i.epoch = j.epoch) : i = j :=
  List.inj_on_of_nodup_map (ascends_nodup h) hi hj he

/-- In every run of the two ends, whatever the order, loss and repetition of what is delivered, an
end has moved exactly to locators its peer had followed it to: every local promotion is of a move
that was proposed and that the peer installed, the peer installs nothing that was not proposed, and
wherever the two are at the same epoch they agree on the locator. -/
theorem ends_agree {C : Crypto} {m : Side → Manager} {secret : Side → Bytes 32} {w : World}
    (h3 : ∀ side, (m side).profile ≠ 3) (h : World.Reach C m secret w) (side : Side) :
    let mine := w.ends side
    let theirs := w.ends side.peer
    (∀ p ∈ mine.applied, ∀ epoch loc b r, p.transition.action = .commitLocal epoch loc b true r →
      ⟨r.candidateId, loc, epoch⟩ ∈ w.moves side ∧
        ∃ i ∈ theirs.installed, i.candidateId = r.candidateId ∧ i.epoch = epoch) ∧
    (∀ i ∈ theirs.installed, ∃ loc, ⟨i.candidateId, loc, i.epoch⟩ ∈ w.moves side ∧
      (i.epoch = theirs.state.peerEpoch → theirs.state.peerLoc = loc)) ∧
    (localEpochs mine.applied).Sublist (theirs.installed.map Install.epoch) ∧
    mine.state.localEpoch ≤ theirs.state.peerEpoch ∧
    (mine.state.localEpoch = theirs.state.peerEpoch →
      mine.state.localLoc = theirs.state.peerLoc) := by
  intro mine theirs
  obtain ⟨home, ht⟩ := h.truthful h3
  have hmine := (ht.runs side).faithful (h3 side) (ht.distinct side.peer)
  have htheirs := (ht.runs side.peer).faithful (h3 side.peer) (ht.distinct side.peer.peer)
  have hlocal := ((ht.runs side).reach.epochs_ahead (h3 side)).2.ascends
  have hpeer := ((ht.runs side.peer).reach.epochs_ahead (h3 side.peer)).1.ascends
  have hback : side.peer.peer = side := Side.peer_peer side
  have hpromoted : ∀ p ∈ mine.applied, ∀ epoch loc b r,
      p.transition.action = .commitLocal epoch loc b true r →
      ⟨r.candidateId, loc, epoch⟩ ∈ w.moves side ∧
        ∃ i ∈ theirs.installed, i.candidateId = r.candidateId ∧ i.epoch = epoch := by
    intro p hp epoch loc b r hact
    have hwarranted := hmine.applied p hp
    rw [hact] at hwarranted
    exact hwarranted.2 rfl
  have hinstalled : ∀ i ∈ theirs.installed,
      ∃ loc, ⟨i.candidateId, loc, i.epoch⟩ ∈ w.moves side := by
    intro i hi
    obtain ⟨loc, hloc⟩ := htheirs.installed i hi
    exact ⟨loc, hback ▸ hloc⟩
  -- Where the peer has put this side, once it has put it anywhere.
  have hput : theirs.state.peerEpoch = 0 ∧ theirs.state.peerLoc = home side ∨
      ∃ j ∈ theirs.installed, j.epoch = theirs.state.peerEpoch ∧
        ⟨j.candidateId, theirs.state.peerLoc, theirs.state.peerEpoch⟩ ∈ w.moves side := by
    rcases htheirs.state.peer with ⟨he, hloc⟩ | ⟨id, htold, j, hj, rfl, hje⟩
    · exact .inl ⟨he, by rw [hloc, World.terms, hback]⟩
    · exact .inr ⟨j, hj, hje, hback ▸ htold⟩
  have hpos : ∀ i ∈ theirs.installed, 0 < i.epoch :=
    fun i hi => ascends_pos hpeer (List.mem_map_of_mem hi)
  -- An install of the peer's epoch is the one that put this side there.
  have hcurrent : ∀ i ∈ theirs.installed, i.epoch = theirs.state.peerEpoch → ∀ loc,
      ⟨i.candidateId, loc, i.epoch⟩ ∈ w.moves side → theirs.state.peerLoc = loc := by
    intro i hi he loc hloc
    rcases hput with ⟨hzero, -⟩ | ⟨j, hj, hje, hmove⟩
    · exact absurd (hpos i hi) (by rw [he, hzero]; exact lt_irrefl _)
    · obtain rfl := install_unique hpeer hi hj (he.trans hje.symm)
      exact congrArg Move.loc (ht.distinct side _ _ hmove hloc rfl)
  refine ⟨hpromoted, ?_, ?_, ?_, ?_⟩
  · intro i hi
    obtain ⟨loc, hloc⟩ := hinstalled i hi
    exact ⟨loc, hloc, fun he => hcurrent i hi he loc hloc⟩
  · refine ascends_sublist hlocal hpeer ?_
    intro epoch hepoch
    obtain ⟨p, hp, he⟩ := List.mem_filterMap.mp hepoch
    obtain ⟨loc, b, r, hact⟩ := localEpoch_eq_some he
    obtain ⟨-, i, hi, -, rfl⟩ := hpromoted p hp epoch loc b r hact
    exact List.mem_map_of_mem hi
  · rcases hmine.state.own with ⟨hzero, -⟩ | ⟨id, -, i, hi, -, he⟩
    · rw [hzero]
      exact Fin.zero_le _
    · rw [← he]
      exact hpeer.le _ (List.mem_append_left _ (List.mem_map_of_mem hi))
  · intro heq
    rcases hmine.state.own with ⟨hzero, hloc⟩ | ⟨id, hmove, i, hi, rfl, he⟩
    · rcases hput with ⟨-, hhome⟩ | ⟨j, hj, hje, -⟩
      · exact hloc.trans hhome.symm
      · exact absurd (hpos j hj) (by rw [hje, ← heq, hzero]; exact lt_irrefl _)
    · refine (hcurrent i hi (he.trans heq) _ ?_).symm
      rw [he]
      exact hmove

/-- The peer of the small manager. -/
def mirrored : ManagerConfig where
  signing := bytesOf 32 2
  localIdentity := Scenario.identityOf 2 (bytesOf 32 2)
  peerIdentity := Scenario.identityOf 1 (bytesOf 32 1)
  profile := 0
  scid := 5
  policyId := 9
  localLoc := bytesOf 16 21
  peerLoc := bytesOf 16 20
  initialPeerBinding := Scenario.bindingOf 0
  candidateSecret := bytesOf 32 8

def managers : Side → Manager
  | .left => Scenario.manager
  | .right =>
    ⟨mirrored.signing, mirrored.localIdentity, mirrored.peerIdentity, 0, 5, 9, 2, some ⟨0⟩⟩

def secrets : Side → Bytes 32
  | .left => Scenario.secret
  | .right => mirrored.candidateSecret

def meeting : World where
  ends
    | .left => Scenario.start
    | .right => { Scenario.start with state := initialState mirrored none }
  sent _ := []
  moves _ := []

theorem meeting_starts : World.Starts .sample managers secrets meeting where
  fresh
    | .left => Scenario.starts
    | .right => ⟨⟨mirrored, none, some ⟨0⟩, 2, if_neg (by decide +kernel), rfl⟩, rfl, rfl, rfl, rfl⟩
  mirrored
    | .left => rfl
    | .right => rfl
  silent _ := rfl
  still _ := rfl

/-- One side is called, or hears the latest control of the other on a binding. -/
inductive Turn
  | call (side : Side) (call : Call)
  | hears (side : Side) (binding : Byte) (nowMs : U64)

/-- A control is previewed, answered and committed. -/
def hear (w : World) (side : Side) (control : Control) (binding : Byte) (nowMs : U64) :
    List Event :=
  let n := (w.ends side).issued.length
  let preview := Call.previewProtected control.encode (Scenario.bindingOf binding)
    ⟨some ⟨control.encode, ⟨Fin.ofNat _ (n + 1), Fin.ofNat _ n⟩, 0⟩, false⟩ (fun _ => true) nowMs
  .call side preview ::
    match (w.ends side).previewed .sample (managers side) preview with
    | some p => [.answer side p,
        .call side (.commitProtected p fun proof => (⟨proof.preview, true⟩, .ok ()))]
    | none => []

def events (w : World) : Turn → List Event
  | .call side call => [.call side call]
  | .hears side binding nowMs =>
    match w.sent side.peer with
    | control :: _ => hear w side control binding nowMs
    | [] => []

def script : World → List Turn → List Event
  | _, [] => []
  | w, turn :: turns => events w turn ++
      script (Machine.exec (World.step .sample managers) w (events w turn)) turns

def play (turns : List Turn) : World :=
  Machine.exec (World.step .sample managers) meeting (script meeting turns)

instance decidableAllowed (w : World) : ∀ event, Decidable (w.Allowed managers event)
  | .call side call =>
    have : Decidable (∀ b ∈ call.plaintext?, ∃ c ∈ w.sent side.peer, b = c.encode) :=
      Option.decidableForallMem call.plaintext?
    have : Decidable (∀ x ∈ call.move?,
        ∀ y ∈ w.moves side, y.candidateId = x.candidateId → y = x) :=
      Option.decidableForallMem call.move?
    inferInstanceAs (Decidable (_ ∧ _ ∧ _))
  | .answer side p => inferInstanceAs (Decidable (p ∈ (w.ends side).issued))

/-- The left side moves to a new locator, and its peer follows on a new binding. -/
def moveLeft (id : Byte) (epoch : U64) (binding : Byte) (nowMs : U64) : List Turn :=
  [.call .left (.proposeLocal (bytesOf 16 id) (bytesOf 16 id) epoch 0 nowMs),
    .hears .right 0 nowMs,
    .call .left (.makeProbe (bytesOf 16 id) (Scenario.bindingOf binding) (zeros 16) nowMs),
    .hears .right binding nowMs, .hears .left binding nowMs, .hears .right binding nowMs,
    .call .right .takeResults, .hears .left binding nowMs]

theorem ends_agree_one_move :
    let w := play (moveLeft 9 1 11 1000)
    (w.ends .left).state.localEpoch = 1 ∧ (w.ends .right).state.peerLoc = bytesOf 16 9 ∧
      (w.ends .left).state.localLoc = (w.ends .right).state.peerLoc := by
  intro w
  have hr : World.Reach .sample managers secrets w :=
    Machine.Reach.exec (.start meeting_starts) _ (by decide +kernel)
  have hepochs : (w.ends .left).state.localEpoch = 1 ∧ (w.ends .right).state.peerEpoch = 1 ∧
      (w.ends .right).state.peerLoc = bytesOf 16 9 := by decide +kernel
  -- Nothing below is to be evaluated.
  clear_value w
  obtain ⟨-, -, -, -, hagree⟩ := ends_agree (by decide +kernel) hr .left
  exact ⟨hepochs.1, hepochs.2.2, hagree (hepochs.1.trans hepochs.2.1.symm)⟩

end R8.Mobility.Pair
