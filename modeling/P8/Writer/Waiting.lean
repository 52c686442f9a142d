import P8.Lib.System
import P8.Writer.Frame

/-!
# Waiting for a buffer

A writer as it is seen each time its lock is free. A call parks a current buffer without room for its record and
waits for the next one without the lock, so that a pull comes in between and everyone sees the writer without a
current buffer until the wait ends. The writers differ in what their calls do around the wait (`Kind`); what the
rule below asks of it is `Kind.Lawful`.

A `Session` is such a state: the writer, the attributes registered by then and the call that waits, if one does.
`Kind.next` is what an event makes of it, and `Kind.system` the runs. `Cursor` is the property of the states, that
the bytes used fit the current buffer; `Sound` is the invariant that gives it, a writer that is `Good` and has no
bytes used when it has no buffer.

`Kind.Lawful.keeps` is the step lemma, for an event that meets the condition `Kind.Resets`: a call that parks a
buffer leaves no bytes used. `Kind.Lawful.breaks` is its converse. So the cursor is right in all states of a run
exactly when every call meets the condition (`Kind.Lawful.cursor_iff`), and where every call does it always is
(`Kind.Lawful.cursor_always`). `Kind.finish` joins a call and the end of its wait, to compare them with the function
of the source.
-/

namespace P8.Waiting
open P8.Lib

/-- Without a current buffer no bytes are used. -/
def Unused (w : Writer) : Prop := w.mpBuffer = none → w.mzBufUsed = 0

/-- The cursor of a writer fits its current buffer. -/
structure Cursor (w : Writer) : Prop where
  unused : Unused w
  bounds : ∀ b, w.mpBuffer = some b → sizeofDataBufHdr ≤ w.mzBufUsed ∧ w.mzBufUsed ≤ mzDataBufferSize
  aligned : ∀ b, w.mpBuffer = some b → w.mzBufUsed % 8 = 0
  size : ∀ b, w.mpBuffer = some b → b.used = w.mzBufUsed
  whole : ∀ b, w.mpBuffer = some b → b.hdr.fragment = false

/-- What a lock-free state of a writer keeps: its buffers hold records, and the current one has `spare` bytes free. -/
structure Sound (spare : Nat) (reg : List AttrType) (w : Writer) : Prop where
  good : ∃ handed recs, Good handed w recs
  cache : w.moAttrCache <+: reg
  unused : Unused w
  spare : ∀ b, w.mpBuffer = some b → w.mzBufUsed + spare ≤ mzDataBufferSize

/-- Only drops were counted. -/
def Counted (w w' : Writer) : Prop :=
  ∃ logs metrics traces, w' = { w with muDroppedLogs := logs, muDroppedMetrics := metrics, muDroppedTraces := traces }

/-- A current buffer with room for `room` bytes is kept, another one may be parked. -/
inductive Parked (room : Nat) (w : Writer) : Writer → Prop
  | kept : (∀ b, w.mpBuffer = some b → w.mzBufUsed + room ≤ mzDataBufferSize) → Parked room w w
  | parked (used : Nat) : Parked room w { w.park with mzBufUsed := used }

/-- Nothing was counted. -/
lemma Counted.refl (w : Writer) : Counted w w :=
  ⟨_, _, _, rfl⟩

namespace Sound
variable {spare : Nat} {reg : List AttrType} {w w' : Writer}

/-- A new writer, with a core or without. -/
lemma start (spare : Nat) (core : Bool) (threadId writerId : UInt32) :
    Sound spare [] { Writer.start threadId writerId with mpCore := core } :=
  ⟨⟨[], [], stream_nil, rfl, nofun⟩, List.prefix_refl _, fun _ => rfl, nofun⟩

/-- A drop that is counted leaves the buffers as they are. -/
lemma counted (h : Sound spare reg w) (hc : Counted w w') : Sound spare reg w' := by
  obtain ⟨logs, metrics, traces, rfl⟩ := hc
  obtain ⟨handed, recs, hg⟩ := h.good
  exact ⟨⟨handed, recs, hg.count _ _ _⟩, h.cache, h.unused, h.spare⟩

/-- A further attribute is none that the writer knows of yet. -/
lemma register (h : Sound spare reg w) (types : List AttrType) : Sound spare (reg ++ types) w :=
  ⟨h.good, h.cache.trans (List.prefix_append _ _), h.unused, h.spare⟩

/-- A pull leaves no current buffer and no bytes used. -/
lemma pull (h : Sound spare reg w) : Sound spare reg (pull w).1 := by
  obtain ⟨handed, recs, hg⟩ := h.good
  refine ⟨⟨_, recs, hg.pull⟩, (pull_cache w).symm ▸ h.cache, ?_, ?_⟩
  · intro _
    unfold P8.pull
    cases hb : w.mpBuffer with
    | none => exact h.unused hb
    | some b => rfl
  · intro b hb
    unfold P8.pull at hb
    cases hw : w.mpBuffer <;> simp [hw] at hb

/-- So does `core_push`. -/
lemma corePush (h : Sound spare reg w) : Sound spare reg (corePush w).1 := by
  obtain ⟨handed, recs, hg⟩ := h.good
  refine ⟨⟨_, recs, hg.corePush⟩, (corePush_cache w).symm ▸ h.cache, ?_, ?_⟩
  · intro _
    unfold P8.corePush
    split <;> rfl
  · intro b hb
    unfold P8.corePush at hb
    split at hb <;> cases hb

/-- A parked buffer leaves a sound writer when it leaves no bytes used. -/
lemma parked {room : Nat} (h : Sound spare reg w) (hp : Parked room w w') (hu : Unused w') : Sound spare reg w' := by
  cases hp with
  | kept => exact h
  | parked used =>
    obtain ⟨handed, recs, hg⟩ := h.good
    exact ⟨⟨handed, recs, hg.of_held (by simp [Writer.park, Writer.held]) rfl rfl⟩, h.cache, hu, nofun⟩

/-- The current buffer is one in which the next record begins. -/
lemma ready {b : DataBuf} (h : Sound spare reg w) (hb : w.mpBuffer = some b) :
    ∃ handed recs, Ready handed w recs b := by
  obtain ⟨handed, recs, hg⟩ := h.good
  exact ⟨handed, recs, hg.ready hb⟩

/-- So is one just waited for. -/
lemma openBuffer (h : Sound spare reg w) (hw : w.mpBuffer = none) (ty : UInt8) (m : Mem) :
    ∃ handed recs, Ready handed (w.openBuffer ty m) recs (w.openBuf ty m) := by
  obtain ⟨handed, recs, hg⟩ := h.good
  exact ⟨handed, recs, hg.openBuffer hw ty m⟩

/-- A sound writer has a cursor that fits. -/
lemma cursor (h : Sound spare reg w) : Cursor w := by
  have hr {b : DataBuf} (hb : w.mpBuffer = some b) := h.ready hb
  refine ⟨h.unused, ?_, ?_, ?_, ?_⟩
  all_goals
    intro b hb
    obtain ⟨handed, recs, hr⟩ := hr hb
    have hu := hr.begins.used
  · rw [← hu]
    exact ⟨hr.begins.lo, hr.begins.hi⟩
  · rw [← hu]
    exact hr.aligned
  · exact hu
  · exact fragment_of_flags hr.begins.flags

end Sound

/-- What the writers differ in. The data `σ` of a writer are its `Writer` and what its own class adds; its calls are
`α`, and those that need a buffer go on with `β`. -/
structure Kind (σ α β : Type) where
  w : σ → Writer
  setW : σ → Writer → σ
  /-- what a call does before it takes the lock; it may end there -/
  front : α → σ → σ × Option β
  /-- a current buffer without room for the record is parked -/
  park : β → Writer → Writer
  packetType : UInt8
  /-- the record is written in the current buffer, with the attributes registered by then -/
  write : List AttrType → β → σ → σ
  /-- the wait ended without a buffer -/
  fail : σ → σ

/-- A writer whose lock is free, the attributes registered and the call that waits for a buffer. -/
structure Session (σ β : Type) where
  data : σ
  reg : List AttrType
  waits : Option β

/-- What happens to a writer with its lock held or free. -/
inductive SessionEvent (α : Type) where
  | call (c : α)
  | got (m : Option Mem)
  | pull
  | corePush
  | register (types : List AttrType)

namespace Kind
variable {σ α β : Type}

/-- The state when the lock is free again. -/
def next (K : Kind σ α β) (s : Session σ β) : SessionEvent α → Session σ β
  | .call c =>
    match K.front c s.data with
    | (d, none) => { s with data := d }
    | (d, some j) =>
      let w := K.park j (K.w d)
      match w.mpBuffer with
      | some _ => { s with data := K.write s.reg j (K.setW d w) }
      | none => { s with data := K.setW d w, waits := some j }
  | .got m =>
    match s.waits, m with
    | none, _ => s
    | some _, none => { s with data := K.fail s.data, waits := none }
    | some j, some m =>
      { s with data := K.write s.reg j (K.setW s.data ((K.w s.data).openBuffer K.packetType m)), waits := none }
  | .pull => { s with data := K.setW s.data (pull (K.w s.data)).1 }
  | .corePush => { s with data := K.setW s.data (corePush (K.w s.data)).1 }
  | .register types => { s with reg := s.reg ++ types }

section Call
variable {K : Kind σ α β} {s : Session σ β} {c : α} {d : σ} {j : β}

/-- A call that ends before it takes the lock. -/
lemma next_ended (hf : K.front c s.data = (d, none)) : K.next s (.call c) = { s with data := d } := by
  simp only [next, hf]

/-- A call that finds room in the current buffer. -/
lemma next_written {b : DataBuf} (hf : K.front c s.data = (d, some j))
    (hb : (K.park j (K.w d)).mpBuffer = some b) :
    K.next s (.call c) = { s with data := K.write s.reg j (K.setW d (K.park j (K.w d))) } := by
  simp only [next, hf, hb]

/-- A call that waits for a buffer. -/
lemma next_waits (hf : K.front c s.data = (d, some j)) (hb : (K.park j (K.w d)).mpBuffer = none) :
    K.next s (.call c) = { s with data := K.setW d (K.park j (K.w d)), waits := some j } := by
  simp only [next, hf, hb]

end Call

/-- A producer that waits makes no call, and only one that waits gets a buffer or none. -/
def enabled (s : Session σ β) : SessionEvent α → Prop
  | .call _ => s.waits = none
  | .got _ => s.waits ≠ none
  | _ => True

/-- The lock-free states of a writer that starts with the data `d`. -/
def system (K : Kind σ α β) (d : σ) : System (Session σ β) (SessionEvent α) where
  start s := s = ⟨d, [], none⟩
  step s e s' := enabled s e ∧ s' = K.next s e

/-- A call that waits is ended by its buffer or by none, after a pull or without one. -/
def finish (K : Kind σ α β) (pulled : Bool) (waited : Option Mem) (s : Session σ β) : Session σ β :=
  match s.waits with
  | none => s
  | some _ => K.next (if pulled then K.next s .pull else s) (.got waited)

/-- A call that ends before it takes the lock. -/
lemma finish_ended {K : Kind σ α β} {c : α} {d d' : σ} (hf : K.front c d = (d', none)) (pulled : Bool)
    (waited : Option Mem) (reg : List AttrType) :
    (K.finish pulled waited (K.next ⟨d, reg, none⟩ (.call c))).data = d' := by
  rw [next_ended (s := ⟨d, reg, none⟩) hf]
  rfl

/-- A call that parks a buffer leaves no bytes used. -/
def Resets (K : Kind σ α β) (s : Session σ β) : SessionEvent α → Prop
  | .call c => ∀ d j, K.front c s.data = (d, some j) → Unused (K.park j (K.w d))
  | _ => True

/-- The cursor fits the current buffer in all lock-free states that a run goes through. -/
def Fits (K : Kind σ α β) : List (Session σ β × SessionEvent α) → Session σ β → Prop :=
  System.Always fun s => Cursor (K.w s.data)

/-- What the rule asks of a writer whose records begin with `room` bytes; it keeps `spare` bytes free. -/
structure Lawful (K : Kind σ α β) (room : β → Nat) (spare : Nat) : Prop where
  w_setW : ∀ d w, K.w (K.setW d w) = w
  setW_setW : ∀ d w w', K.setW (K.setW d w) w' = K.setW d w'
  front : ∀ c d, Counted (K.w d) (K.w (K.front c d).1)
  fail : ∀ d, Counted (K.w d) (K.w (K.fail d))
  room_le : ∀ j, room j ≤ bodySize
  park : ∀ j w, Parked (room j) w (K.park j w)
  write : ∀ {handed recs b reg} j d, Ready handed (K.w d) recs b → b.used + room j ≤ mzDataBufferSize →
    (K.w d).moAttrCache <+: reg → Sound spare reg (K.w (K.write reg j d))

/-- The invariant of the lock-free states: the writer is sound and a call waits only without a current buffer. -/
structure SoundSession (K : Kind σ α β) (spare : Nat) (s : Session σ β) : Prop where
  sound : Sound spare s.reg (K.w s.data)
  waits : s.waits ≠ none → (K.w s.data).mpBuffer = none

namespace Lawful
variable {K : Kind σ α β} {room : β → Nat} {spare : Nat} {s : Session σ β}

/-- A call that parks no used bytes keeps the invariant. -/
lemma call (h : K.Lawful room spare) (hs : K.SoundSession spare s) {c : α} (hw : s.waits = none)
    (hr : K.Resets s (.call c)) : K.SoundSession spare (K.next s (.call c)) := by
  have hd := hs.sound.counted (h.front c s.data)
  cases hf : K.front c s.data with
  | mk d j =>
    rw [hf] at hd
    cases j with
    | none =>
      rw [next_ended hf]
      exact ⟨hd, fun e => absurd hw e⟩
    | some j =>
      have hp := h.park j (K.w d)
      have hd' := hd.parked hp (hr d j hf)
      have he : K.w (K.setW d (K.park j (K.w d))) = K.park j (K.w d) := h.w_setW _ _
      cases hb : (K.park j (K.w d)).mpBuffer with
      | none =>
        rw [next_waits hf hb]
        exact ⟨he.symm ▸ hd', fun _ => he.symm ▸ hb⟩
      | some b =>
        obtain ⟨handed, recs, hready⟩ := hd'.ready hb
        have hfit : b.used + room j ≤ mzDataBufferSize := by
          rw [hready.begins.used]
          generalize K.park j (K.w d) = w at hp hb
          cases hp with
          | kept hroom => exact hroom b hb
          | parked used => cases hb
        rw [next_written hf hb]
        exact ⟨h.write j _ (he.symm ▸ hready) hfit (he.symm ▸ hd'.cache), fun e => absurd hw e⟩

/-- A wait that ends keeps the invariant. -/
lemma got (h : K.Lawful room spare) (hs : K.SoundSession spare s) (m : Option Mem) :
    K.SoundSession spare (K.next s (.got m)) := by
  unfold next
  cases hw : s.waits with
  | none => exact hs
  | some j =>
    cases m with
    | none => exact ⟨hs.sound.counted (h.fail _), fun e => absurd rfl e⟩
    | some m =>
      have hnone : (K.w s.data).mpBuffer = none := by
        apply hs.waits
        rw [hw]
        exact Option.some_ne_none j
      obtain ⟨handed, recs, hready⟩ := hs.sound.openBuffer hnone K.packetType m
      have hfit : ((K.w s.data).openBuf K.packetType m).used + room j ≤ mzDataBufferSize := by
        have hle := h.room_le j
        rw [openBuf_used]
        simp only [bodySize, mzDataBufferSize, sizeofDataBufHdr] at hle ⊢
        omega
      have he := h.w_setW s.data ((K.w s.data).openBuffer K.packetType m)
      exact ⟨h.write j _ (he.symm ▸ hready) hfit (he.symm ▸ hs.sound.cache), fun e => absurd rfl e⟩

/-- A step that meets the condition keeps the invariant. -/
lemma keeps (h : K.Lawful room spare) (hs : K.SoundSession spare s) {e : SessionEvent α} (he : enabled s e)
    (hr : K.Resets s e) : K.SoundSession spare (K.next s e) := by
  cases e with
  | call c => exact h.call hs he hr
  | got m => exact h.got hs m
  | pull =>
    refine ⟨(h.w_setW _ _).symm ▸ hs.sound.pull, fun hw => (h.w_setW _ _).symm ▸ ?_⟩
    simp [P8.pull, hs.waits hw]
  | corePush =>
    refine ⟨(h.w_setW _ _).symm ▸ hs.sound.corePush, fun _ => (h.w_setW _ _).symm ▸ ?_⟩
    unfold P8.corePush
    split <;> rfl
  | register types => exact ⟨hs.sound.register types, hs.waits⟩

/-- A step that does not meet it leaves a cursor that fits no buffer. -/
lemma breaks (h : K.Lawful room spare) {e : SessionEvent α} (hr : ¬K.Resets s e) :
    ¬Cursor (K.w (K.next s e).data) := by
  cases e with
  | call c =>
    simp only [Resets, Unused, not_forall] at hr
    obtain ⟨d, j, hf, hb, hu⟩ := hr
    intro hc
    rw [next_waits hf hb, h.w_setW] at hc
    exact hu (hc.unused hb)
  | _ => exact absurd trivial hr

/-- In a run, the cursor fits the current buffer in every lock-free state exactly when each step meets a condition that
says of the states of the invariant which calls reset what they park. -/
lemma cursor_iff (h : K.Lawful room spare) {Q : Session σ β → SessionEvent α → Prop}
    (hQ : ∀ s e, K.SoundSession spare s → (Q s e ↔ K.Resets s e)) {d : σ} (hd : Sound spare [] (K.w d))
    {l : List (Session σ β × SessionEvent α)} (hp : (K.system d).Path l s) :
    K.Fits l s ↔ System.Each Q l := by
  apply hp.always_iff (I := K.SoundSession spare)
  · rintro s rfl
    exact ⟨hd, fun e => absurd rfl e⟩
  · exact fun s hs => hs.sound.cursor
  · rintro s e s' hs ⟨he, rfl⟩ hq
    exact h.keeps hs he ((hQ s e hs).mp hq)
  · rintro s e s' hs ⟨-, rfl⟩ hq
    exact h.breaks fun hr => hq ((hQ s e hs).mpr hr)

/-- Where each call resets what it parks, the cursor always fits. -/
lemma cursor_always (h : K.Lawful room spare) (hr : ∀ s e, K.SoundSession spare s → K.Resets s e) {d : σ}
    (hd : Sound spare [] (K.w d)) {l : List (Session σ β × SessionEvent α)} (hp : (K.system d).Path l s) :
    K.Fits l s := by
  apply (h.cursor_iff (Q := fun _ _ => True) _ hd hp).mpr
  · exact fun _ _ => trivial
  · exact fun s e hs => iff_of_true trivial (hr s e hs)

/-- A call that takes the lock has its buffer, with nothing but a pull in between, from `currentBuffer`. -/
lemma finish_locked (h : K.Lawful room spare) {c : α} {d d' : σ} {j : β} (hf : K.front c d = (d', some j))
    {pulled ok : Bool} {waited : Option Mem} {w : Writer} {out : List DataBuf}
    (hr : currentBuffer pulled waited K.packetType (K.park j (K.w d')) = (w, out, ok)) (reg : List AttrType) :
    (K.finish pulled waited (K.next ⟨d, reg, none⟩ (.call c))).data =
      bif ok then K.write reg j (K.setW d' w) else K.fail (K.setW d' w) := by
  unfold finish
  cases hb : (K.park j (K.w d')).mpBuffer with
  | some b =>
    simp only [currentBuffer, hb] at hr
    cases hr
    rw [next_written (s := ⟨d, reg, none⟩) hf hb]
    rfl
  | none =>
    simp only [currentBuffer, waitBuffer, hb] at hr
    rw [next_waits (s := ⟨d, reg, none⟩) hf hb]
    cases pulled <;> cases waited <;> cases hr <;> simp [next, h.w_setW, h.setW_setW]

end Lawful
end Kind

end P8.Waiting
