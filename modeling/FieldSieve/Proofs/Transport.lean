import FieldSieve.Proofs.OpenFrames

/-!
# Two runs side by side

Many laws of scanning compare two runs: over two buffers, or with two policies.  The second run
then goes through the images of the walks that the first one goes through.  A `Walk.Transport` says
what the image of a walk is and that each part of a field, done from the image, comes to the image
of what it comes to from the walk; faults that the second run may escape are excused.

Parts that carry over one by one carry over in a row (`Carries.bind`), so a field carries over
(`Walk.Transport.field`), and with every field all that a run visits (`Walk.Transport.visits`).  The
second run therefore goes on from the image of the walk at which the first one ended.
-/
namespace FieldSieve

/-- The same result with another state. -/
def mapState {ε σ τ α : Type} (f : σ → τ) : EStateM.Result ε σ α → EStateM.Result ε τ α
  | .ok a state => .ok a (f state)
  | .error fault state => .error fault (f state)

/-- What `step` does from a state, `other` does from the image of that state: with the same value,
or with the same fault unless it is an excused one. -/
structure Carries {σ τ α : Type} (image : σ → τ) (excused : Fault → Prop)
    (step : EStateM Fault σ α) (other : EStateM Fault τ α) : Prop where
  ok : ∀ {state a next}, step state = .ok a next → other (image state) = .ok a (image next)
  error : ∀ {state fault rest}, step state = .error fault rest → ¬ excused fault →
    other (image state) = .error fault (image rest)

namespace Carries

variable {σ τ α β : Type} {image : σ → τ} {excused : Fault → Prop}

/-- A step that always does the same carries over, and nothing has to be excused. -/
theorem of_eq {step : EStateM Fault σ α} {other : EStateM Fault τ α}
    (h : ∀ state, other (image state) = mapState image (step state)) :
    Carries image excused step other where
  ok := by
    intro state a next hstep
    rw [h, hstep]
    rfl
  error := by
    intro state fault rest hstep _
    rw [h, hstep]
    rfl

theorem bind {step : EStateM Fault σ α} {other : EStateM Fault τ α} {next : α → EStateM Fault σ β}
    {otherNext : α → EStateM Fault τ β} (h : Carries image excused step other)
    (hnext : ∀ a, Carries image excused (next a) (otherNext a)) :
    Carries image excused (step >>= next) (other >>= otherNext) where
  ok := by
    intro state b done hrun
    obtain ⟨a, between, hstep, hrun⟩ := bind_eq_ok.mp hrun
    rw [bind_of_ok (h.ok hstep)]
    exact (hnext a).ok hrun
  error := by
    intro state fault rest hrun hfault
    rcases bind_eq_error.mp hrun with hstep | ⟨a, between, hstep, hrun⟩
    · exact bind_of_error (h.error hstep hfault)
    · rw [bind_of_ok (h.ok hstep)]
      exact (hnext a).error hrun hfault

/-- A step that does the same carries over to itself where states are left as they are. -/
theorem refl (excused : Fault → Prop) (step : EStateM Fault σ α) :
    Carries id excused step step where
  ok h := h
  error h _ := h

theorem throw (image : σ → τ) (excused : Fault → Prop) (fault : Fault) :
    Carries image excused (throw fault : EStateM Fault σ α) (throw fault) where
  ok := nofun
  error := by
    intro state fault rest h _
    cases h
    rfl

end Carries

namespace Walk

section Frames

variable {σ τ : Type} {image : Walk σ → Walk τ} {excused : Fault → Prop}

/-- The walk with the frame of a key that stood at `offset`. -/
def entered (walk : Walk σ) (offset : Nat) (key : Key) : Walk σ :=
  let nesting := walk.nesting.push key.number none
  { walk with
    nesting
    visited := walk.visited + 1
    journal := walk.journal.push (.keyRead offset key nesting.path) }

theorem enter_eq (offset : Nat) (key : Key) (walk : Walk σ) : enter offset key walk =
    match walk.limits.maxDepth with
    | some limit => if limit < walk.nesting.depth + 1
      then .error (.depthLimitExceeded limit) (walk.entered offset key)
      else .ok () (walk.entered offset key)
    | none => .ok () (walk.entered offset key) := rfl

/-- A frame is opened alike where the depth and its limit are the same. -/
theorem carries_enter_of {offset offset' : Nat} {key : Key}
    (hlimits : ∀ walk, (image walk).limits = walk.limits)
    (hdepth : ∀ walk, (image walk).nesting.depth = walk.nesting.depth)
    (hentered : ∀ walk, (image walk).entered offset' key = image (walk.entered offset key)) :
    Carries image excused (enter offset key) (enter offset' key) := by
  apply Carries.of_eq
  intro walk
  rw [enter_eq, enter_eq, hlimits, hdepth, hentered]
  cases walk.limits.maxDepth with
  | none => rfl
  | some limit =>
    by_cases hdeep : limit < walk.nesting.depth + 1
    · simp only [hdeep, if_true, mapState]
    · simp only [hdeep, if_false, mapState]

/-- Frames are closed alike where the same ones end at the position or before it. -/
theorem close_image (hsettle : ∀ walk, (image walk).settle = image walk.settle)
    (hover : ∀ walk, (image walk).nesting.overrunAt (image walk).cursor.position =
      walk.nesting.overrunAt walk.cursor.position) (walk : Walk σ) :
    close (image walk) = mapState image (close walk) := by
  have himage : (image walk).settle.nesting.overrunAt (image walk).cursor.position =
      walk.settle.nesting.overrunAt walk.cursor.position := by
    rw [show (image walk).cursor = (image walk).settle.cursor from rfl, hsettle]
    exact hover walk.settle
  rw [close_eq, close_eq, himage, hsettle]
  split <;> rfl

end Frames

/-- A way to take a walk under one policy to a walk under another, which every part of a field
follows.  Positions in the image are `shift` bytes further on. -/
structure Transport {σ τ : Type} (P : Policy σ) (Q : Policy τ) where
  image : Walk σ → Walk τ
  onCursor : Cursor → Cursor
  excused : Fault → Prop
  shift : Nat
  cursor_image : ∀ walk, (image walk).cursor = onCursor walk.cursor
  image_movedTo : ∀ walk c, image (walk.movedTo c) = (image walk).movedTo (onCursor c)
  position : ∀ c, (onCursor c).position = c.position + shift
  more : ∀ c, c.atEnd = false → (onCursor c).atEnd = false
  readKey : Carries onCursor excused Cursor.readKey Cursor.readKey
  readVarint : Carries onCursor excused Cursor.readVarint Cursor.readVarint
  readBytes : ∀ n, Carries onCursor excused (Cursor.readBytes n) (Cursor.readBytes n)
  skip : ∀ n, Carries onCursor excused (Cursor.skip n) (Cursor.skip n)
  require : ∀ n, Carries onCursor excused (Cursor.require n) (Cursor.require n)
  enter : ∀ offset key,
    Carries image excused (Walk.enter offset key) (Walk.enter (offset + shift) key)
  leave : Carries image excused Walk.leave Walk.leave
  deliver : ∀ key value, Carries image excused (Walk.deliver P key value) (Walk.deliver Q key value)
  ask : ∀ key length, Carries image excused (Walk.ask P key length) (Walk.ask Q key length)
  descend : ∀ length, Carries image excused (Walk.descend length) (Walk.descend length)
  close : Carries image excused Walk.close Walk.close

namespace Transport

variable {σ τ α : Type} {P : Policy σ} {Q : Policy τ} (t : Transport P Q) {start walk rest : Walk σ}
  {fault : Fault}

theorem read {reader : Reader α} (h : Carries t.onCursor t.excused reader reader) :
    Carries t.image t.excused (Walk.read reader) (Walk.read reader) where
  ok := by
    intro walk a next hread
    cases hr : reader walk.cursor with
    | ok b c =>
      rw [read_of_ok hr] at hread
      cases hread
      have himage := h.ok hr
      rw [← t.cursor_image] at himage
      rw [read_of_ok himage, t.image_movedTo]
    | error fault c =>
      rw [read_of_error hr] at hread
      cases hread
  error := by
    intro walk fault rest hread hfault
    cases hr : reader walk.cursor with
    | ok b c =>
      rw [read_of_ok hr] at hread
      cases hread
    | error fault c =>
      rw [read_of_error hr] at hread
      cases hread
      have himage := h.error hr hfault
      rw [← t.cursor_image] at himage
      rw [read_of_error himage, t.image_movedTo]

theorem payload (key : Key) :
    Carries t.image t.excused (Walk.payload P key) (Walk.payload Q key) := by
  refine (t.read t.readVarint).bind fun word => ?_
  refine (t.ask key _).bind fun answer => ?_
  cases answer with
  | skip => exact (t.read (t.skip _)).bind fun _ => t.leave
  | capture => exact (t.read (t.readBytes _)).bind fun value => t.deliver key value
  | descend => exact (t.read (t.require _)).bind fun _ => t.descend _

theorem value (key : Key) : Carries t.image t.excused (Walk.value P key) (Walk.value Q key) := by
  unfold Walk.value
  cases key.wireType with
  | varint => exact (t.read t.readVarint).bind fun word => t.deliver key _
  | fixed64 | fixed32 => exact (t.read (t.readBytes _)).bind fun value => t.deliver key value
  | lengthDelimited => exact t.payload key
  | startGroup | endGroup => exact .throw ..

/-- A field carries over.  Its key stands `shift` bytes further on. -/
theorem field : Carries t.image t.excused (Walk.field P) (Walk.field Q) := by
  have hparts : ∀ offset : Nat, Carries t.image t.excused
      (Walk.read Cursor.readKey >>= fun key =>
        Walk.enter offset key >>= fun _ => Walk.value P key >>= fun _ => Walk.close)
      (Walk.read Cursor.readKey >>= fun key =>
        Walk.enter (offset + t.shift) key >>= fun _ => Walk.value Q key >>= fun _ => Walk.close) :=
    fun offset => (t.read t.readKey).bind fun key => (t.enter offset key).bind fun _ =>
      (t.value key).bind fun _ => t.close
  have hposition : ∀ walk, (t.image walk).cursor.position = walk.cursor.position + t.shift := by
    intro walk
    rw [t.cursor_image, t.position]
  constructor
  · intro walk a next h
    rw [field_eq] at h
    rw [field_eq, hposition]
    exact (hparts _).ok h
  · intro walk fault rest h hfault
    rw [field_eq] at h
    rw [field_eq, hposition]
    exact (hparts _).error h hfault

/-- The second run visits the images of what the first one visits. -/
theorem visits (h : Visits P start walk) : Visits Q (t.image start) (t.image walk) := by
  induction h with
  | start => exact .start
  | field _ hmore hfield ih =>
    refine .field ih ?_ (t.field.ok hfield)
    rw [t.cursor_image]
    exact t.more _ hmore

/-- So it goes on from the image of any of them. -/
theorem toEnd_image (h : Visits P start walk) :
    toEnd Q (t.image start) = toEnd Q (t.image walk) :=
  toEnd_of_visits (t.visits h)

/-- And it breaks off where the first one does, unless the fault is an excused one. -/
theorem toEnd_image_of_error (h : Visits P start walk) (hmore : walk.cursor.atEnd = false)
    (hfield : Walk.field P walk = .error fault rest) (hfault : ¬ t.excused fault) :
    toEnd Q (t.image start) = broken (walk.cursor.position + t.shift) fault (t.image rest) := by
  have hmoreImage : (t.image walk).cursor.atEnd = false := by
    rw [t.cursor_image]
    exact t.more _ hmore
  rw [t.toEnd_image h, toEnd_of_error hmoreImage (t.field.error hfield hfault), t.cursor_image,
    t.position]

end Transport
end Walk
end FieldSieve
