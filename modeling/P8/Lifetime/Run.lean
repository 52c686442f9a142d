import P8.Lifetime.Shared

/-!
# The lifetime of the core

The reference count matches the holders of a core in the runs where `p8_release` overlaps no other call in its DSO
and gives back the reference while no other DSO has the pointer. An attached DSO has a pointer and no reference, so
outside these runs a core is deleted under its holders.

`Orderly` is the condition on a step. `Inv` says of every core who refers to it and how many references there are:
the one of its creation, as long as it was not dropped, and one for each writer. The count itself is compared only
with these, so an attach, which copies a pointer, does not appear in it.

There is a lemma for each step that changes what `Inv` speaks of (`Inv.new`, `Inv.publish`, `Inv.construct`,
`Inv.destruct`, `Inv.drop`, `Inv.delete`) and a few for those that only move a pointer (`Inv.moveOn`, `Inv.take`,
`Inv.enter`); `Inv.step` assigns the steps to them. `core_lifetime` then follows from `Inv.uses`, that no orderly
step uses a deleted core. `core_deleted_under_writer` is the run without the condition.
-/

namespace P8.Lifetime
open P8.Lib

/-- When a step may be taken: no call begins in a DSO during its `p8_release`, nor the other way round, and
`p8_release` gives back the reference while no other DSO's `gp_instance` and no local variable of a thread has the
core. -/
def Orderly (s : Sys) : Event → Prop
  | .entered _ d => ∀ t, (s.pc t).releases ≠ some d
  | .releasing _ d => ∀ t, (s.pc t).dso ≠ some d
  | .dropped _ d c => (∀ d', d' ≠ d → s.gpInstance d' ≠ some c) ∧ ∀ t, (s.pc t).holds ≠ some c
  | _ => True

/-- What every orderly step keeps. -/
structure Inv (s : Sys) : Prop where
  gpLive : ∀ d c, s.gpInstance d = some c → c < s.next ∧
    (c ∉ s.dropped ∨ ∃ t, s.pc t = .relDelete d c ∨ s.pc t = .relClear d)
  shmLive : ∀ c, s.shm = some c → c < s.next ∧ c ∉ s.dropped
  holdLive : ∀ t c, (s.pc t).holds = some c → c < s.next ∧ c ∉ s.dropped
  buildLive : ∀ t c, (s.pc t).builds = some c → c < s.next ∧ c ∉ s.dropped ∧ c ∉ s.mpCores ∧ s.shm ≠ some c ∧
    (∀ d, s.gpInstance d ≠ some c) ∧ ∀ t', (s.pc t').holds ≠ some c ∧ (t' ≠ t → (s.pc t').builds ≠ some c)
  deleting : ∀ t c, (s.pc t).deletes = some c → c ∈ s.dropped ∧ c ∉ s.deleted ∧ c ∉ s.mpCores ∧
    ∀ t', t' ≠ t → (s.pc t').deletes ≠ some c
  deleted : ∀ c ∈ s.deleted, c ∈ s.dropped ∧ c ∉ s.mpCores
  bound : (∀ c ∈ s.dropped, c < s.next) ∧ ∀ c ∈ s.mpCores, c < s.next
  count : ∀ c, c < s.next → c ∉ s.deleted →
    s.muRefCount c = (if c ∈ s.dropped then 0 else 1) + s.mpCores.count c
  alone : ∀ t d, (s.pc t).releases = some d → ∀ t', t' ≠ t → (s.pc t').dso ≠ some d
  unlinked : ∀ t d c, s.pc t = .relRelease d → s.gpInstance d = some c → s.shm ≠ some c

variable {s s' : Sys} {t : Thread}

/-- Before the first call. -/
lemma Inv.start : Inv .init := by
  constructor <;> simp [Sys.init, Pc.holds, Pc.builds, Pc.deletes, Pc.releases]

/-- A thread that is in `p8_release` of a DSO is in its code. -/
lemma Pc.dso_of_releases {p : Pc} {d : Dso} (h : p.releases = some d) : p.dso = some d := by
  cases p <;> first | exact h | cases h

/-- A step of one thread that changes nothing shared. The thread keeps what it builds, and gets at most a core that
is published. -/
lemma Inv.move (h : Inv s) {p : Pc} (hb : ∀ c, p.builds = some c → (s.pc t).builds = some c)
    (hh : ∀ c, p.holds = some c →
      c < s.next ∧ c ∉ s.dropped ∧ ∀ t', (s.pc t').builds ≠ some c)
    (hdel : p.deletes = none) (hdso : ∀ d, p.dso = some d → ∀ t', t' ≠ t → (s.pc t').releases ≠ some d)
    (hrel : ∀ d, p.releases = some d → ∀ t', t' ≠ t → (s.pc t').dso ≠ some d)
    (hun : ∀ d, p ≠ .relRelease d) (hold : ∀ d c, s.pc t ≠ .relDelete d c) (hold' : ∀ d, s.pc t ≠ .relClear d) :
    Inv (s.go t p) := by
  obtain ⟨h1, h2, h3, h4, h5, h6, h7, h8, h9, h10⟩ := h
  constructor <;> simp only [Sys.go, Function.update_apply]
  · grind
  · exact h2
  · grind
  · grind
  · grind
  · exact h6
  · exact h7
  · exact h8
  · grind
  · grind

/-- A DSO gets a core that a thread has in a local variable. -/
lemma Inv.setInstance (h : Inv s) {d : Dso} {c : Core} (hc : (s.pc t).holds = some c)
    (hd : (s.pc t).dso = some d) : Inv (s.setInstance d (some c)) := by
  obtain ⟨h1, h2, h3, h4, h5, h6, h7, h8, h9, h10⟩ := h
  have hlive := h3 t c hc
  constructor <;> simp only [Sys.setInstance, Function.update_apply]
  · grind
  · exact h2
  · exact h3
  · grind
  · exact h5
  · exact h6
  · exact h7
  · exact h8
  · exact h9
  · intro t' d' c' ht' hg
    by_cases e : d' = d
    · subst e
      by_cases et : t' = t
      · subst et
        rw [ht'] at hc
        cases hc
      · exact absurd hd (h9 t' d' (by rw [ht']; rfl) t fun e => et e.symm)
    · rw [if_neg e] at hg
      exact h10 t' d' c' ht' hg

/-- A new core is known to no one but the thread that built it. -/
lemma Inv.new (h : Inv s) {d : Dso} {p : Pc} (ht : s.pc t = .initNew d)
    (hp : p = .initFailed d s.next ∨ p = .initCreate d s.next) : Inv (s.new.go t p) := by
  obtain ⟨h1, h2, h3, h4, h5, h6, h7, h8, h9, h10⟩ := h
  have hn : s.next ∉ s.mpCores := fun hm => Nat.lt_irrefl _ (h7.2 _ hm)
  have hn' : s.next ∉ s.dropped := fun hm => Nat.lt_irrefl _ (h7.1 _ hm)
  have hbuilds : p.builds = some s.next ∧ p.holds = none ∧ p.deletes = none ∧ p.releases = none ∧
      p.dso = some d := by
    rcases hp with rfl | rfl <;> exact ⟨rfl, rfl, rfl, rfl, rfl⟩
  have hne : (∀ d c, p ≠ .relDelete d c) ∧ (∀ d, p ≠ .relClear d) ∧ ∀ d, p ≠ .relRelease d := by
    rcases hp with rfl | rfl <;> exact ⟨nofun, nofun, nofun⟩
  constructor <;> simp only [Sys.go, Sys.new, Function.update_apply]
  · grind
  · grind
  · grind
  · grind
  · grind
  · exact h6
  · grind
  · grind
  · grind [Pc.dso]
  · grind

/-- The thread that built a core publishes it. -/
lemma Inv.publish (h : Inv s) {d : Dso} {c : Core} (ht : s.pc t = .initCreate d c) :
    Inv ({ s with shm := some c }.go t (.initHandle d c)) := by
  obtain ⟨h1, h2, h3, h4, h5, h6, h7, h8, h9, h10⟩ := h
  have hb := h4 t c (by rw [ht]; rfl)
  have hp : (Pc.initHandle d c).builds = none ∧ (Pc.initHandle d c).holds = some c ∧
      (Pc.initHandle d c).deletes = none ∧ (Pc.initHandle d c).releases = none ∧
      (Pc.initHandle d c).dso = some d := ⟨rfl, rfl, rfl, rfl, rfl⟩
  have hpt : (s.pc t).dso = some d := by rw [ht]; rfl
  constructor <;> simp only [Sys.go, Function.update_apply]
  · grind
  · grind
  · grind
  · grind
  · grind
  · exact h6
  · exact h7
  · exact h8
  · grind
  · grind

/-- A core that was not published is deleted by the thread that built it. -/
lemma Inv.discard (h : Inv s) {d : Dso} {c : Core} {p : Pc} (hb : (s.pc t).builds = some c)
    (ht : (s.pc t).dso = some d) (hp : p = .idle ∨ p = .initReread d) :
    Inv ({ s with dropped := c :: s.dropped, deleted := c :: s.deleted }.go t p) := by
  obtain ⟨h1, h2, h3, h4, h5, h6, h7, h8, h9, h10⟩ := h
  have hc := h4 t c hb
  have hpc : p.builds = none ∧ p.holds = none ∧ p.deletes = none ∧ p.releases = none ∧
      (p.dso = none ∨ p.dso = some d) := by
    rcases hp with rfl | rfl <;> exact ⟨rfl, rfl, rfl, rfl, by first | exact .inl rfl | exact .inr rfl⟩
  have hne : (∀ d, p ≠ .relRelease d) ∧ (∀ d c, s.pc t ≠ .relDelete d c) ∧ ∀ d, s.pc t ≠ .relClear d := by
    refine ⟨?_, ?_, ?_⟩
    · rcases hp with rfl | rfl <;> exact nofun
    · intro d' c' e
      rw [e] at hb
      cases hb
    · intro d' e
      rw [e] at hb
      cases hb
  constructor <;> simp only [Sys.go, Function.update_apply]
  · grind
  · grind
  · grind
  · grind
  · grind
  · grind
  · grind
  · grind
  · grind
  · grind

/-- A writer takes its reference. -/
lemma Inv.construct (h : Inv s) {d : Dso} {c : Core} (ht : s.pc t = .got d c .writer) :
    Inv ({ s.addref c with mpCores := c :: s.mpCores }.go t .idle) := by
  obtain ⟨h1, h2, h3, h4, h5, h6, h7, h8, h9, h10⟩ := h
  have hc := h3 t c (by rw [ht]; rfl)
  have hp : Pc.idle.builds = none ∧ Pc.idle.holds = none ∧ Pc.idle.deletes = none ∧ Pc.idle.releases = none ∧
      Pc.idle.dso = none := ⟨rfl, rfl, rfl, rfl, rfl⟩
  have hh : (s.pc t).holds = some c := by rw [ht]; rfl
  constructor <;> simp only [Sys.go, Sys.addref, Function.update_apply]
  · grind
  · exact h2
  · grind
  · grind
  · grind
  · grind
  · grind
  · grind
  · grind
  · grind

/-- A writer gives back its reference. -/
lemma Inv.destruct (h : Inv s) {c : Core} (ht : s.pc t = .idle) (hm : c ∈ s.mpCores) :
    Inv ({ s.release c with mpCores := s.mpCores.erase c }.go t
      (if s.muRefCount c = 1 then .writerDelete c else .idle)) := by
  obtain ⟨h1, h2, h3, h4, h5, h6, h7, h8, h9, h10⟩ := h
  have hpos := List.count_pos_iff.mpr hm
  have hmem : ∀ c', c' ∈ s.mpCores.erase c → c' ∈ s.mpCores := fun c' => List.mem_of_mem_erase
  have hcount : ∀ c', (s.mpCores.erase c).count c' = if c' = c then s.mpCores.count c - 1 else s.mpCores.count c' := by
    intro c'
    split
    · rename_i e
      rw [e, List.count_erase_self]
    · rename_i e
      exact List.count_erase_of_ne e
  have hlast : s.muRefCount c = 1 → c ∈ s.dropped ∧ c ∉ s.deleted ∧ c ∉ s.mpCores.erase c := by
    have hc := h8 c (h7.2 c hm) fun hd => (h6 c hd).2 hm
    intro h1
    rw [h1] at hc
    have hd : c ∈ s.dropped := by grind
    refine ⟨hd, fun hd => (h6 c hd).2 hm, fun he => ?_⟩
    have hp := List.count_pos_iff.mpr he
    rw [hcount, if_pos rfl] at hp
    grind
  have hp : ∀ p, p = Pc.writerDelete c ∨ p = .idle → p.builds = none ∧ p.holds = none ∧ p.releases = none ∧
      p.dso = none ∧ (p.deletes = some c ∧ p = .writerDelete c ∨ p.deletes = none) := by
    rintro p (rfl | rfl)
    · exact ⟨rfl, rfl, rfl, rfl, .inl ⟨rfl, rfl⟩⟩
    · exact ⟨rfl, rfl, rfl, rfl, .inr rfl⟩
  generalize hq : (if s.muRefCount c = 1 then Pc.writerDelete c else .idle) = p
  have hp' := hp p (by grind)
  have hq' : p.deletes = some c → s.muRefCount c = 1 := by
    intro e
    by_contra hne
    rw [if_neg hne] at hq
    rw [← hq] at e
    cases e
  constructor <;> simp only [Sys.go, Sys.release, Function.update_apply]
  · grind
  · exact h2
  · grind
  · grind
  · grind
  · grind
  · grind
  · grind
  · grind
  · grind

/-- A core that no one refers to is deleted. -/
lemma Inv.delete (h : Inv s) {c : Core} {p : Pc} (hd : (s.pc t).deletes = some c)
    (hp : (p = .idle ∧ s.pc t = .writerDelete c) ∨ ∃ d, p = .relClear d ∧ s.pc t = .relDelete d c) :
    Inv ({ s with deleted := c :: s.deleted }.go t p) := by
  obtain ⟨h1, h2, h3, h4, h5, h6, h7, h8, h9, h10⟩ := h
  have hc := h5 t c hd
  have hpc : p.builds = none ∧ p.holds = none ∧ p.deletes = none ∧ p.releases = (s.pc t).releases ∧
      p.dso = (s.pc t).dso := by
    rcases hp with ⟨rfl, e⟩ | ⟨d, rfl, e⟩ <;> rw [e] <;> exact ⟨rfl, rfl, rfl, rfl, rfl⟩
  have hne : (∀ d, p ≠ .relRelease d) ∧ (∀ d, s.pc t ≠ .relClear d) ∧
      ∀ d c, s.pc t = .relDelete d c → p = .relClear d := by
    rcases hp with ⟨rfl, e⟩ | ⟨d, rfl, e⟩ <;> rw [e]
    · exact ⟨nofun, nofun, nofun⟩
    · refine ⟨nofun, nofun, fun d' c' e => ?_⟩
      cases e
      rfl
  constructor <;> simp only [Sys.go, Function.update_apply]
  · grind
  · exact h2
  · grind
  · grind
  · grind
  · grind
  · exact h7
  · grind
  · grind
  · grind

/-- `p8_release` takes the name away. -/
lemma Inv.unlink (h : Inv s) {d : Dso} (ht : s.pc t = .relUnlink d) :
    Inv ({ s with shm := none }.go t (.relRelease d)) := by
  obtain ⟨h1, h2, h3, h4, h5, h6, h7, h8, h9, h10⟩ := h
  have hp : (Pc.relRelease d).builds = none ∧ (Pc.relRelease d).holds = none ∧
      (Pc.relRelease d).deletes = none ∧ (Pc.relRelease d).releases = some d ∧
      (Pc.relRelease d).dso = some d := ⟨rfl, rfl, rfl, rfl, rfl⟩
  have hpt : (s.pc t).dso = some d ∧ (s.pc t).releases = some d := by rw [ht]; exact ⟨rfl, rfl⟩
  constructor <;> simp only [Sys.go, Function.update_apply]
  · grind
  · exact nofun
  · grind
  · grind
  · grind
  · exact h6
  · exact h7
  · exact h8
  · grind
  · grind

/-- `p8_release` gives back the reference of the creation. -/
lemma Inv.drop (h : Inv s) {d : Dso} {c : Core} (ht : s.pc t = .relRelease d) (hg : s.gpInstance d = some c)
    (hone : ∀ d', d' ≠ d → s.gpInstance d' ≠ some c) (hheld : ∀ t, (s.pc t).holds ≠ some c) :
    Inv ({ s.release c with dropped := c :: s.dropped }.go t
      (if s.muRefCount c = 1 then .relDelete d c else .relClear d)) := by
  obtain ⟨h1, h2, h3, h4, h5, h6, h7, h8, h9, h10⟩ := h
  have hrel : (s.pc t).releases = some d ∧ (s.pc t).dso = some d := by rw [ht]; exact ⟨rfl, rfl⟩
  have hlive : c < s.next ∧ c ∉ s.dropped := by
    refine ⟨(h1 d c hg).1, (h1 d c hg).2.resolve_right ?_⟩
    rintro ⟨t', e⟩
    have hne : t' ≠ t := by
      rintro rfl
      rw [ht] at e
      rcases e with e | e <;> cases e
    have hd : (s.pc t').dso = some d := by
      rcases e with e | e <;> rw [e] <;> rfl
    exact h9 t d hrel.1 t' hne hd
  have hnd : c ∉ s.deleted := fun hd => hlive.2 (h6 c hd).1
  have hc := h8 c hlive.1 hnd
  rw [if_neg hlive.2] at hc
  have hshm := h10 t d c ht hg
  have hbuild : ∀ t', (s.pc t').builds ≠ some c := fun t' e => (h4 t' c e).2.2.2.2.1 d hg
  generalize hq : (if s.muRefCount c = 1 then Pc.relDelete d c else .relClear d) = p
  have hp : (p = .relDelete d c ∧ c ∉ s.mpCores) ∨ p = .relClear d := by
    by_cases e : s.muRefCount c = 1
    · rw [if_pos e] at hq
      refine .inl ⟨hq.symm, fun hm => ?_⟩
      have := List.count_pos_iff.mpr hm
      omega
    · rw [if_neg e] at hq
      exact .inr hq.symm
  have hp' : p.builds = none ∧ p.holds = none ∧ p.releases = some d ∧ p.dso = some d ∧
      (p.deletes = some c ∧ c ∉ s.mpCores ∨ p.deletes = none) ∧ ∀ d, p ≠ .relRelease d := by
    rcases hp with ⟨rfl, hm⟩ | rfl
    · exact ⟨rfl, rfl, rfl, rfl, .inl ⟨rfl, hm⟩, nofun⟩
    · exact ⟨rfl, rfl, rfl, rfl, .inr rfl, nofun⟩
  constructor <;> simp only [Sys.go, Sys.release, Function.update_apply]
  · grind
  · grind
  · grind
  · grind
  · grind
  · grind
  · grind
  · grind
  · grind
  · grind

/-- `p8_release` clears the pointer. -/
lemma Inv.clear (h : Inv s) {d : Dso} (ht : s.pc t = .relClear d) : Inv ((s.setInstance d none).go t .idle) := by
  obtain ⟨h1, h2, h3, h4, h5, h6, h7, h8, h9, h10⟩ := h
  have hp : Pc.idle.builds = none ∧ Pc.idle.holds = none ∧ Pc.idle.deletes = none ∧ Pc.idle.releases = none ∧
      Pc.idle.dso = none := ⟨rfl, rfl, rfl, rfl, rfl⟩
  constructor <;> simp only [Sys.go, Sys.setInstance, Function.update_apply]
  · grind
  · exact h2
  · grind
  · grind
  · grind
  · exact h6
  · exact h7
  · exact h8
  · grind
  · grind

/-- No thread is in `p8_release` of a DSO while another is in its code. -/
lemma Inv.not_releases (h : Inv s) {d : Dso} (hd : (s.pc t).dso = some d) :
    ∀ t', t' ≠ t → (s.pc t').releases ≠ some d :=
  fun t' hne hr => h.alone t' d hr t (fun e => hne e.symm) hd

/-- A core that a thread can read from its DSO is not given back. -/
lemma Inv.gp_live (h : Inv s) {d : Dso} {c : Core} (hg : s.gpInstance d = some c) (hd : (s.pc t).dso = some d)
    (hr : (s.pc t).releases = none) : c ∉ s.dropped := by
  refine (h.gpLive d c hg).2.resolve_right ?_
  rintro ⟨t', e⟩
  have hd' : (s.pc t').releases = some d := by
    rcases e with e | e <;> rw [e] <;> rfl
  refine h.not_releases hd t' ?_ hd'
  rintro rfl
  rw [hr] at hd'
  cases hd'

/-- A thread goes on in the code of the same DSO, or ends its call, and gets no core. -/
lemma Inv.moveOn (h : Inv s) {p : Pc} (hb : p.builds = none ∨ p.builds = (s.pc t).builds) (hh : p.holds = none)
    (hdel : p.deletes = none) (hrel : p.releases = none) (hdso : p.dso = none ∨ p.dso = (s.pc t).dso)
    (hold : (s.pc t).releases = none) : Inv (s.go t p) := by
  refine h.move ?_ ?_ hdel ?_ ?_ ?_ ?_ ?_
  · intro c hc
    rcases hb with hb | hb <;> rw [hb] at hc
    · cases hc
    · exact hc
  · intro c hc
    rw [hh] at hc
    cases hc
  · intro d hd
    rcases hdso with e | e <;> rw [e] at hd
    · cases hd
    · exact h.not_releases hd
  · intro d hd
    rw [hrel] at hd
    cases hd
  · rintro d rfl
    cases hrel
  · intro d c e
    rw [e] at hold
    cases hold
  · intro d e
    rw [e] at hold
    cases hold

/-- A thread gets a published core. -/
lemma Inv.take (h : Inv s) {p : Pc} {c : Core} (hb : p.builds = none) (hh : p.holds = some c)
    (hc : c < s.next ∧ c ∉ s.dropped ∧ ∀ t', (s.pc t').builds ≠ some c) (hdel : p.deletes = none)
    (hrel : p.releases = none) (hdso : p.dso = (s.pc t).dso) (hold : (s.pc t).releases = none) :
    Inv (s.go t p) := by
  refine h.move ?_ ?_ hdel ?_ ?_ ?_ ?_ ?_
  · intro c hc
    rw [hb] at hc
    cases hc
  · intro c' hc'
    rw [hh] at hc'
    cases hc'
    exact hc
  · intro d hd
    rw [hdso] at hd
    exact h.not_releases hd
  · intro d hd
    rw [hrel] at hd
    cases hd
  · rintro d rfl
    cases hrel
  · intro d c e
    rw [e] at hold
    cases hold
  · intro d e
    rw [e] at hold
    cases hold

/-- What a thread reads in the shared memory. -/
lemma Inv.read_shm (h : Inv s) {c : Core} (hs : s.shm = some c) :
    c < s.next ∧ c ∉ s.dropped ∧ ∀ t', (s.pc t').builds ≠ some c :=
  ⟨(h.shmLive c hs).1, (h.shmLive c hs).2, fun t' hb => (h.buildLive t' c hb).2.2.2.1 hs⟩

/-- A call begins in a DSO. -/
lemma Inv.enter (h : Inv s) {d : Dso} {p : Pc} (ht : s.pc t = .idle) (ho : ∀ t, (s.pc t).releases ≠ some d)
    (hp : p.builds = none ∧ p.holds = none ∧ p.deletes = none ∧ p.releases = none ∧ p.dso = some d) :
    Inv (s.go t p) := by
  obtain ⟨hb, hh, hdel, hrel, hdso⟩ := hp
  refine h.move ?_ ?_ hdel ?_ ?_ ?_ ?_ ?_
  · intro c hc
    rw [hb] at hc
    cases hc
  · intro c hc
    rw [hh] at hc
    cases hc
  · intro d' hd t' _
    rw [hdso] at hd
    cases hd
    exact ho t'
  · intro d hd
    rw [hrel] at hd
    cases hd
  · rintro d rfl
    cases hrel
  · intro d c e
    rw [e] at ht
    cases ht
  · intro d e
    rw [e] at ht
    cases ht

/-- `p8_release` begins, or goes on to the removal of the name. -/
lemma Inv.releases (h : Inv s) {d : Dso} {p : Pc} (hp : p = .relClose d ∨ p = .relUnlink d)
    (ho : ∀ t', t' ≠ t → (s.pc t').dso ≠ some d) (ht : s.pc t = .idle ∨ s.pc t = .relClose d) :
    Inv (s.go t p) := by
  have hq : p.builds = none ∧ p.holds = none ∧ p.deletes = none ∧ p.releases = some d ∧ p.dso = some d := by
    rcases hp with rfl | rfl <;> exact ⟨rfl, rfl, rfl, rfl, rfl⟩
  obtain ⟨hb, hh, hdel, hrel, hdso⟩ := hq
  refine h.move ?_ ?_ hdel ?_ ?_ ?_ ?_ ?_
  · intro c hc
    rw [hb] at hc
    cases hc
  · intro c hc
    rw [hh] at hc
    cases hc
  · intro d' hd t' hne hr
    rw [hdso] at hd
    cases hd
    exact ho t' hne (Pc.dso_of_releases hr)
  · intro d' hd
    rw [hrel] at hd
    cases hd
    exact ho
  · rcases hp with rfl | rfl <;> exact nofun
  · intro d c e
    rw [e] at ht
    rcases ht with ht | ht <;> cases ht
  · intro d e
    rw [e] at ht
    rcases ht with ht | ht <;> cases ht

/-- The handles of the shared memory have no part in the invariant. -/
lemma Inv.setHandle (h : Inv s) (g : Dso → Bool) : Inv { s with gpShmHandle := g } :=
  ⟨h.gpLive, h.shmLive, h.holdLive, h.buildLive, h.deleting, h.deleted, h.bound, h.count, h.alone, h.unlinked⟩

/-- Every orderly step keeps the invariant. -/
lemma Inv.step (h : Inv s) {e : Event} (hs : Step s e s') (ho : Orderly s e) : Inv s' := by
  cases hs with
  | initDone => exact h
  | initEnter ht => exact h.enter ht ho ⟨rfl, rfl, rfl, rfl, rfl⟩
  | initFound ht hm => exact h.take rfl rfl (h.read_shm hm) rfl rfl (by rw [ht]; rfl) (by rw [ht]; rfl)
  | initNotFound ht => exact h.moveOn (.inl rfl) rfl rfl rfl (.inr (by rw [ht]; rfl)) (by rw [ht]; rfl)
  | initError ht => exact h.moveOn (.inl rfl) rfl rfl rfl (.inl rfl) (by rw [ht]; rfl)
  | initBroken ht => exact h.new ht (.inl rfl)
  | initBuilt ht => exact h.new ht (.inr rfl)
  | initCreated ht _ => exact h.publish ht
  | initExists ht _ =>
    exact h.moveOn (.inr (by rw [ht]; rfl)) rfl rfl rfl (.inr (by rw [ht]; rfl)) (by rw [ht]; rfl)
  | @initHandle t d c ht =>
    have hc := h.holdLive t c (by rw [ht]; rfl)
    have hb : ∀ t', (s.pc t').builds ≠ some c := fun t' hb => ((h.buildLive t' c hb).2.2.2.2.2 t).1 (by rw [ht]; rfl)
    exact (h.setHandle _).take rfl rfl ⟨hc.1, hc.2, hb⟩ rfl rfl (by simp only [ht]; rfl) (by simp only [ht]; rfl)
  | @initStore t d c ht =>
    have hs := h.setInstance (t := t) (d := d) (c := c) (by rw [ht]; rfl) (by rw [ht]; rfl)
    exact hs.moveOn (.inl rfl) rfl rfl rfl (.inl rfl) (by simp only [Sys.setInstance, ht]; rfl)
  | initFailed ht => exact h.discard (by rw [ht]; rfl) (by rw [ht]; rfl) (.inl rfl)
  | initLost ht => exact h.discard (by rw [ht]; rfl) (by rw [ht]; rfl) (.inr rfl)
  | initReread ht hm => exact h.take rfl rfl (h.read_shm hm) rfl rfl (by rw [ht]; rfl) (by rw [ht]; rfl)
  | initNoLock ht => exact h.moveOn (.inl rfl) rfl rfl rfl (.inl rfl) (by rw [ht]; rfl)
  | @initAttach t d c ht =>
    have hs := h.setInstance (t := t) (d := d) (c := c) (by rw [ht]; rfl) (by rw [ht]; rfl)
    exact hs.moveOn (.inl rfl) rfl rfl rfl (.inl rfl) (by simp only [Sys.setInstance, ht]; rfl)
  | getEnter ht _ => exact h.enter ht ho ⟨rfl, rfl, rfl, rfl, rfl⟩
  | getWait ht _ => exact h.enter ht ho ⟨rfl, rfl, rfl, rfl, rfl⟩
  | getRetry => exact h
  | getTimeout ht => exact h.moveOn (.inl rfl) rfl rfl rfl (.inl rfl) (by rw [ht]; rfl)
  | getFound ht hm => exact h.take rfl rfl (h.read_shm hm) rfl rfl (by rw [ht]; rfl) (by rw [ht]; rfl)
  | @getStore t d c k ht =>
    have hs := h.setInstance (t := t) (d := d) (c := c) (by rw [ht]; rfl) (by rw [ht]; rfl)
    exact hs.moveOn (.inl rfl) rfl rfl rfl (.inr (by simp only [Sys.setInstance, ht]; rfl))
      (by simp only [Sys.setInstance, ht]; rfl)
  | @getReturn t d c k ht hg =>
    have hd : (s.pc t).dso = some d := by rw [ht]; rfl
    have hr : (s.pc t).releases = none := by rw [ht]; rfl
    have hb : ∀ t', (s.pc t').builds ≠ some c := fun t' hb => (h.buildLive t' c hb).2.2.2.2.1 d hg
    exact h.take rfl rfl ⟨(h.gpLive d c hg).1, h.gp_live hg hd hr, hb⟩ rfl rfl hd.symm hr
  | getNull ht _ => exact h.moveOn (.inl rfl) rfl rfl rfl (.inl rfl) (by rw [ht]; rfl)
  | call ht => exact h.moveOn (.inl rfl) rfl rfl rfl (.inl rfl) (by rw [ht]; rfl)
  | construct ht => exact h.construct ht
  | write => exact h
  | destruct ht hm => exact h.destruct ht hm
  | writerDelete ht => exact h.delete (by rw [ht]; rfl) (.inl ⟨rfl, ht⟩)
  | relNone => exact h
  | relEnter ht _ => exact h.releases (.inl rfl) (fun t' _ => ho t') (.inl ht)
  | @relClose t d ht =>
    exact (h.setHandle _).releases (.inr rfl) (h.alone t d (by rw [ht]; rfl)) (.inr ht)
  | relUnlink ht => exact h.unlink ht
  | relRelease ht hg => exact h.drop ht hg ho.1 ho.2
  | relDelete ht => exact h.delete (by rw [ht]; rfl) (.inr ⟨_, rfl, ht⟩)
  | relClear ht => exact h.clear ht

/-- An orderly step uses no deleted core. -/
lemma Inv.uses (h : Inv s) {e : Event} (hs : Step s e s') (ho : Orderly s e) {c : Core} (hu : e.uses = some c) :
    c ∉ s.deleted := by
  have hheld : ∀ t, (s.pc t).holds = some c → c ∉ s.deleted :=
    fun t hh hd => (h.holdLive t c hh).2 (h.deleted c hd).1
  have hbuilt : ∀ t, (s.pc t).builds = some c → c ∉ s.deleted :=
    fun t hb hd => (h.buildLive t c hb).2.1 (h.deleted c hd).1
  cases hs <;> cases hu
  case initFailed t d ht => exact hbuilt t (by rw [ht]; rfl)
  case initLost t d ht => exact hbuilt t (by rw [ht]; rfl)
  case call t d ht => exact hheld t (by rw [ht]; rfl)
  case construct t d ht => exact hheld t (by rw [ht]; rfl)
  case write t ht hm => exact fun hd => (h.deleted c hd).2 hm
  case destruct t ht hm => exact fun hd => (h.deleted c hd).2 hm
  case writerDelete t ht => exact (h.deleting t c (by rw [ht]; rfl)).2.1
  case relDelete t d ht => exact (h.deleting t c (by rw [ht]; rfl)).2.1
  case relRelease t d ht hg =>
    intro hd
    have hrel : (s.pc t).releases = some d := by rw [ht]; rfl
    rcases (h.gpLive d c hg).2 with hl | ⟨t', e⟩
    · exact hl (h.deleted c hd).1
    · refine h.alone t d hrel t' ?_ ?_
      · rintro rfl
        rw [ht] at e
        rcases e with e | e <;> cases e
      · rcases e with e | e <;> rw [e] <;> rfl

/-- A core is deleted by a step that shows it. -/
lemma deleted_step {e : Event} (hs : Step s e s') {c : Core} (he : e.deletes = some c) : c ∈ s'.deleted := by
  cases hs <;> cases he <;> exact List.mem_cons_self

/-- A core that was deleted stays deleted. -/
lemma deleted_mono {e : Event} (hs : Step s e s') {c : Core} (hc : c ∈ s.deleted) : c ∈ s'.deleted := by
  cases hs <;> first | exact hc | exact List.mem_cons_of_mem _ hc

/-- In every run whose steps are orderly, a core is deleted at most once, when nothing refers to it, and not used
afterwards. -/
theorem core_lifetime {l : List Event} (h : (system.restrict Orderly).Run l s) : Safe l s := by
  have hi : Inv s ∧ (l.Pairwise fun a b => ∀ c, a.deletes = some c → b.uses ≠ some c) ∧
      ∀ e ∈ l, ∀ c, e.deletes = some c → c ∈ s.deleted := by
    refine h.invariant (I := fun l s => Inv s ∧ (l.Pairwise fun a b => ∀ c, a.deletes = some c → b.uses ≠ some c) ∧
      ∀ e ∈ l, ∀ c, e.deletes = some c → c ∈ s.deleted) ?_ ?_
    · rintro s rfl
      exact ⟨.start, .nil, nofun⟩
    · rintro l s e s' - ⟨hi, hp, hd⟩ ⟨hs, ho⟩
      refine ⟨hi.step hs ho, ?_, ?_⟩
      · rw [List.pairwise_append]
        refine ⟨hp, List.pairwise_singleton _ _, ?_⟩
        intro a ha b hb c hc hu
        rw [List.mem_singleton.mp hb] at hu
        exact hi.uses hs ho hu (hd a ha c hc)
      · intro a ha c hc
        rcases List.mem_append.mp ha with ha | ha
        · exact deleted_mono hs (hd a ha c hc)
        · rw [List.mem_singleton.mp ha] at hc
          exact deleted_step hs hc
  obtain ⟨hi, hp, -⟩ := hi
  refine ⟨hp, fun c hc d hg => ?_, fun c hc => ⟨(hi.deleted c hc).2, fun t d ht => ?_⟩⟩
  · have hd := (hi.deleted c hc).1
    rcases (hi.gpLive d c hg).2 with hl | ⟨t, e | e⟩
    · exact absurd hd hl
    · exact absurd hc (hi.deleting t c (by rw [e]; rfl)).2.1
    · exact ⟨t, e⟩
  · exact (hi.holdLive t c (by rw [ht]; rfl)).2 (hi.deleted c hc).1

/-- One DSO builds the core and releases it again, while a writer of another thread has its reference: the core lives on
until the writer is gone. -/
theorem core_lifetime_one_dso : ∃ l l' s s', (system.restrict Orderly).Run l s ∧ s.gpInstance 0 = none ∧
    s.mpCores = [0] ∧ s.deleted = [] ∧ Safe l s ∧
      (system.restrict Orderly).Run (l ++ l') s' ∧ s'.deleted = [0] ∧ Safe (l ++ l') s' := by
  have h0 : (system.restrict Orderly).Run [] .init := .start rfl
  have h1 := h0.step ⟨.initEnter (t := 0) (d := 0) rfl rfl, fun _ => nofun⟩
  have h2 := h1.step ⟨.initNotFound (t := 0) (d := 0) rfl, trivial⟩
  have h3 := h2.step ⟨.initBuilt (t := 0) (d := 0) rfl, trivial⟩
  have h4 := h3.step ⟨.initCreated (t := 0) (d := 0) (c := 0) rfl rfl, trivial⟩
  have h5 := h4.step ⟨.initHandle (t := 0) (d := 0) (c := 0) rfl, trivial⟩
  have h6 := h5.step ⟨.initStore (t := 0) (d := 0) (c := 0) rfl, trivial⟩
  -- the writer takes a reference
  have h7 := h6.step ⟨.getEnter (t := 1) (d := 0) (c := 0) (k := .writer) rfl rfl, fun t => by
    by_cases e : t = 0 <;> simp [Sys.go, Sys.setInstance, Sys.new, Sys.init, Pc.releases, e]⟩
  have h8 := h7.step ⟨.getReturn (t := 1) (d := 0) (c := 0) (k := .writer) rfl rfl, trivial⟩
  have h9 := h8.step ⟨.construct (t := 1) (d := 0) (c := 0) rfl, trivial⟩
  -- the release leaves the core to it
  have h10 := h9.step ⟨.relEnter (t := 0) (d := 0) (c := 0) rfl rfl, fun t => by
    by_cases e : t = 0 <;> by_cases e' : t = 1 <;>
      simp [Sys.go, Sys.addref, Sys.setInstance, Sys.new, Sys.init, Pc.dso, Function.update, e, e']⟩
  have h11 := h10.step ⟨.relClose (t := 0) (d := 0) rfl, trivial⟩
  have h12 := h11.step ⟨.relUnlink (t := 0) (d := 0) rfl, trivial⟩
  have h13 := h12.step ⟨.relRelease (t := 0) (d := 0) (c := 0) rfl rfl, fun d hd => by
    simp [Sys.go, Sys.addref, Sys.setInstance, Sys.new, Sys.init, hd], fun t => by
    by_cases e : t = 0 <;> by_cases e' : t = 1 <;>
      simp [Sys.go, Sys.addref, Sys.setInstance, Sys.new, Sys.init, Pc.holds, Function.update, e, e']⟩
  have h14 := h13.step ⟨.relClear (t := 0) (d := 0) rfl, trivial⟩
  -- the writer goes on, and deletes the core when it is destroyed
  have h15 := h14.step ⟨.write (t := 1) (c := 0) rfl List.mem_cons_self, trivial⟩
  have h16 := h15.step ⟨.destruct (t := 1) (c := 0) rfl List.mem_cons_self, trivial⟩
  have h17 := h16.step ⟨.writerDelete (t := 1) (c := 0) rfl, trivial⟩
  exact ⟨_, [_, _, _], _, _, h14, rfl, rfl, rfl, core_lifetime h14, h17, rfl, core_lifetime h17⟩

/-- A second DSO attaches, both release, and the core is deleted under a writer that has its reference. -/
theorem core_deleted_under_writer : ¬∀ l s, system.Run l s → Safe l s := by
  intro hall
  have h0 : system.Run [] .init := .start rfl
  -- the first DSO builds the core
  have h1 := h0.step (.initEnter (t := 0) (d := 0) rfl rfl)
  have h2 := h1.step (.initNotFound (t := 0) (d := 0) rfl)
  have h3 := h2.step (.initBuilt (t := 0) (d := 0) rfl)
  have h4 := h3.step (.initCreated (t := 0) (d := 0) (c := 0) rfl rfl)
  have h5 := h4.step (.initHandle (t := 0) (d := 0) (c := 0) rfl)
  have h6 := h5.step (.initStore (t := 0) (d := 0) (c := 0) rfl)
  -- the second one attaches
  have h7 := h6.step (.initEnter (t := 0) (d := 1) rfl rfl)
  have h8 := h7.step (.initFound (t := 0) (d := 1) (c := 0) rfl rfl)
  have h9 := h8.step (.initAttach (t := 0) (d := 1) (c := 0) rfl)
  -- a writer takes a reference
  have h10 := h9.step (.getEnter (t := 0) (d := 0) (c := 0) (k := .writer) rfl rfl)
  have h11 := h10.step (.getReturn (t := 0) (d := 0) (c := 0) (k := .writer) rfl rfl)
  have h12 := h11.step (.construct (t := 0) (d := 0) (c := 0) rfl)
  -- the second DSO gives back the reference of the first, and the first one that of the writer
  have h13 := h12.step (.relEnter (t := 0) (d := 1) (c := 0) rfl rfl)
  have h14 := h13.step (.relClose (t := 0) (d := 1) rfl)
  have h15 := h14.step (.relUnlink (t := 0) (d := 1) rfl)
  have h16 := h15.step (.relRelease (t := 0) (d := 1) (c := 0) rfl rfl)
  have h17 := h16.step (.relClear (t := 0) (d := 1) rfl)
  have h18 := h17.step (.relEnter (t := 0) (d := 0) (c := 0) rfl rfl)
  have h19 := h18.step (.relClose (t := 0) (d := 0) rfl)
  have h20 := h19.step (.relUnlink (t := 0) (d := 0) rfl)
  have h21 := h20.step (.relRelease (t := 0) (d := 0) (c := 0) rfl rfl)
  have h22 := h21.step (.relDelete (t := 0) (d := 0) (c := 0) rfl)
  exact ((hall _ _ h22).noWriter 0 List.mem_cons_self).1 List.mem_cons_self

end P8.Lifetime
