import Mathlib.Data.List.Basic
import Mathlib.Logic.Function.Basic

/-!
# Tables of weak references

Objects are made at free addresses, and the address of an object that is gone is used again.  A table notes something
of an object under its address, with a weak reference to it.  Once the object is gone the finalizer of the reference
takes the note back; it may run at any time after that, when the address has long been given to another object, and
leaves a note that is not its own.  Over every run the note that is found for a living object is the one that was made
for this very object (`Exact.note_eq_some`), and a note outlives its object only until its finalizer has run.
-/

/-- Objects `ω` in the order in which they were made, and notes `α` on some of them. -/
structure WeakTable (ω α : Type*) where
  next : Nat := 0
  object : Nat → Option ω := fun _ => none
  address : Nat → Nat := fun _ => 0
  /-- What is noted under an address, and of which object. -/
  entry : Nat → Option (Nat × α) := fun _ => none
  /-- The objects that are gone and whose finalizers have not run. -/
  pending : List Nat := []

namespace WeakTable

open Function (update update_self update_of_ne)

variable {ω α : Type*}

def isFree (t : WeakTable ω α) (place : Nat) : Bool :=
  (List.range t.next).all fun o => (t.object o).isNone || t.address o != place

def create (object : ω) (place : Nat) (t : WeakTable ω α) : WeakTable ω α :=
  { t with
    next := t.next + 1
    object := update t.object t.next (some object)
    address := update t.address t.next place }

/-- A note on an object, under its address. -/
def write (o : Nat) (a : α) (t : WeakTable ω α) : WeakTable ω α :=
  { t with entry := update t.entry (t.address o) (some (o, a)) }

def change (o : Nat) (object : ω) (t : WeakTable ω α) : WeakTable ω α :=
  { t with object := update t.object o ((t.object o).map fun _ => object) }

/-- The table still has its reference to the object. -/
def holds (t : WeakTable ω α) (o : Nat) : Bool := (t.entry (t.address o)).any fun e => e.1 == o

def collect (o : Nat) (t : WeakTable ω α) : WeakTable ω α :=
  { t with
    object := update t.object o none
    pending := if t.holds o then o :: t.pending else t.pending }

/-- The finalizer of an object that is gone. -/
def discard (o : Nat) (t : WeakTable ω α) : WeakTable ω α :=
  if t.pending.contains o then
    { t with
      entry := if t.holds o then update t.entry (t.address o) none else t.entry
      pending := t.pending.filter (· != o) }
  else t

/-- What a weak reference to the object yields. -/
def target (t : WeakTable ω α) (o : Nat) : Option Nat := if (t.object o).isSome then some o else none

/-- The note that is found for an object. -/
def note (t : WeakTable ω α) (o : Nat) : Option α :=
  (t.entry (t.address o)).bind fun e => if t.target e.1 = some o then some e.2 else none

/-! ### Exact tables -/

/-- The table has the notes that were made of the objects that live, and beside them only some whose finalizers have
still to run. -/
structure Exact (t : WeakTable ω α) (issued : Nat → Option α) : Prop where
  fresh : ∀ o, t.next ≤ o → t.object o = none ∧ issued o = none
  apart : ∀ o o', (t.object o).isSome = true → (t.object o').isSome = true → t.address o = t.address o' → o = o'
  noted : ∀ place o a, t.entry place = some (o, a) →
    t.address o = place ∧ issued o = some a ∧ ((t.object o).isSome = true ∨ o ∈ t.pending)
  kept : ∀ o a, (t.object o).isSome = true → issued o = some a → t.entry (t.address o) = some (o, a)
  gone : ∀ o ∈ t.pending, o < t.next ∧ t.object o = none

variable {t : WeakTable ω α} {issued : Nat → Option α}

theorem Exact.empty : Exact ({} : WeakTable ω α) fun _ => none where
  fresh o _ := ⟨rfl, rfl⟩
  apart o o' h := (by cases h)
  noted place o a h := (by cases h)
  kept o a h := (by cases h)
  gone o h := absurd h List.not_mem_nil

/-- The note that is found for a living object is the one that was made for it. -/
theorem Exact.note_eq_some (h : Exact t issued) {o : Nat} {a : α} (hlive : (t.object o).isSome = true) :
    t.note o = some a ↔ issued o = some a := by
  unfold note target
  constructor
  · intro hnote
    obtain ⟨⟨o', a'⟩, hentry, hfound⟩ := Option.bind_eq_some_iff.1 hnote
    dsimp only at hfound
    by_cases hlive' : (t.object o').isSome = true
    · rw [if_pos hlive'] at hfound
      split at hfound
      · rename_i htarget
        cases htarget
        cases hfound
        exact (h.noted _ _ _ hentry).2.1
      · cases hfound
    · rw [if_neg hlive', if_neg (by simp)] at hfound
      cases hfound
  · intro hissued
    rw [h.kept o a hlive hissued, Option.bind_some]
    dsimp only
    rw [if_pos hlive, if_pos rfl]

theorem Exact.lt_next (h : Exact t issued) {o : Nat} (hlive : (t.object o).isSome = true) : o < t.next := by
  by_contra hge
  rw [(h.fresh o (Nat.le_of_not_lt hge)).1] at hlive
  cases hlive

theorem Exact.address_ne (h : Exact t issued) {place o : Nat} (hfree : t.isFree place = true)
    (hlive : (t.object o).isSome = true) : t.address o ≠ place := by
  have hall := List.all_eq_true.1 hfree o (List.mem_range.2 (h.lt_next hlive))
  rw [Bool.or_eq_true, bne_iff_ne] at hall
  rcases hall with hnone | hne
  · rw [Option.isNone_iff_eq_none] at hnone
    rw [hnone] at hlive
    cases hlive
  · exact hne

/-- What is noted is noted of an object that has been made. -/
theorem Exact.noted_lt (h : Exact t issued) {place o : Nat} {a : α} (hentry : t.entry place = some (o, a)) :
    o < t.next := by
  by_contra hge
  have hissued := (h.noted place o a hentry).2.1
  rw [(h.fresh o (Nat.le_of_not_lt hge)).2] at hissued
  cases hissued

theorem holds_iff {o : Nat} : t.holds o = true ↔ ∃ a, t.entry (t.address o) = some (o, a) := by
  unfold holds
  rw [Option.any_eq_true]
  constructor
  · rintro ⟨⟨o', a⟩, hentry, heq⟩
    obtain rfl : o' = o := beq_iff_eq.1 heq
    exact ⟨a, hentry⟩
  · rintro ⟨a, hentry⟩
    exact ⟨_, hentry, beq_iff_eq.2 rfl⟩

/-! ### The operations -/

theorem Exact.create (h : Exact t issued) {place : Nat} (hfree : t.isFree place = true) (object : ω) :
    Exact (t.create object place) issued where
  fresh := by
    intro o ho
    have hlt : t.next < o := ho
    obtain ⟨hobject, hissued⟩ := h.fresh o (Nat.le_of_lt hlt)
    refine ⟨?_, hissued⟩
    unfold WeakTable.create
    dsimp only
    rw [update_of_ne (Nat.ne_of_gt hlt), hobject]
  apart := by
    intro o o' hlive hlive' hsame
    unfold WeakTable.create at hlive hlive' hsame
    dsimp only at hlive hlive' hsame
    by_cases ho : o = t.next <;> by_cases ho' : o' = t.next
    · rw [ho, ho']
    · rw [ho, update_self, update_of_ne ho'] at hsame
      rw [update_of_ne ho'] at hlive'
      exact absurd hsame.symm (h.address_ne hfree hlive')
    · rw [ho', update_self, update_of_ne ho] at hsame
      rw [update_of_ne ho] at hlive
      exact absurd hsame (h.address_ne hfree hlive)
    · rw [update_of_ne ho] at hlive
      rw [update_of_ne ho'] at hlive'
      rw [update_of_ne ho, update_of_ne ho'] at hsame
      exact h.apart o o' hlive hlive' hsame
  noted := by
    intro place' o a hentry
    have hne : o ≠ t.next := Nat.ne_of_lt (h.noted_lt hentry)
    unfold WeakTable.create
    dsimp only
    rw [update_of_ne hne, update_of_ne hne]
    exact h.noted place' o a hentry
  kept := by
    intro o a hlive hissued
    have hne : o ≠ t.next := by
      intro heq
      rw [heq, (h.fresh t.next (Nat.le_refl _)).2] at hissued
      cases hissued
    unfold WeakTable.create at hlive ⊢
    dsimp only at hlive ⊢
    rw [update_of_ne hne] at hlive ⊢
    exact h.kept o a hlive hissued
  gone := by
    intro o ho
    obtain ⟨hlt, hnone⟩ := h.gone o ho
    unfold WeakTable.create
    dsimp only
    rw [update_of_ne (Nat.ne_of_lt hlt)]
    exact ⟨Nat.lt_succ_of_lt hlt, hnone⟩

/-- A note on a living object takes the place of whatever is under its address. -/
theorem Exact.write (h : Exact t issued) {o : Nat} (hlive : (t.object o).isSome = true) (a : α) :
    Exact (t.write o a) (update issued o (some a)) where
  fresh := by
    intro o' ho'
    obtain ⟨hobject, hissued⟩ := h.fresh o' ho'
    refine ⟨hobject, ?_⟩
    have hne : o' ≠ o := by
      rintro rfl
      rw [hobject] at hlive
      cases hlive
    rw [update_of_ne hne, hissued]
  apart := h.apart
  noted := by
    intro place o' a' hentry
    unfold WeakTable.write at hentry ⊢
    dsimp only at hentry ⊢
    by_cases hplace : place = t.address o
    · rw [hplace, update_self] at hentry
      cases hentry
      rw [hplace, update_self]
      exact ⟨rfl, rfl, .inl hlive⟩
    · rw [update_of_ne hplace] at hentry
      obtain ⟨haddress, hissued, hwhere⟩ := h.noted place o' a' hentry
      have hne : o' ≠ o := by
        rintro rfl
        exact hplace haddress.symm
      rw [update_of_ne hne]
      exact ⟨haddress, hissued, hwhere⟩
  kept := by
    intro o' a' hlive' hissued
    unfold WeakTable.write
    dsimp only
    by_cases ho : o' = o
    · rw [ho, update_self] at hissued
      rw [ho, update_self, Option.some.inj hissued]
    · rw [update_of_ne ho] at hissued
      have hne : t.address o' ≠ t.address o := fun hsame => ho (h.apart o' o hlive' hlive hsame)
      rw [update_of_ne hne]
      exact h.kept o' a' hlive' hissued
  gone := h.gone

theorem isSome_change (o o' : Nat) (object : ω) :
    ((t.change o object).object o').isSome = (t.object o').isSome := by
  unfold WeakTable.change
  dsimp only
  by_cases ho : o' = o
  · rw [ho, update_self, Option.isSome_map]
  · rw [update_of_ne ho]

theorem Exact.change (h : Exact t issued) (o : Nat) (object : ω) : Exact (t.change o object) issued where
  fresh := by
    intro o' ho'
    obtain ⟨hobject, hissued⟩ := h.fresh o' ho'
    refine ⟨?_, hissued⟩
    rw [← Option.isNone_iff_eq_none, ← Option.not_isSome, isSome_change, hobject]
    rfl
  apart := by
    intro o₁ o₂ hlive₁ hlive₂ hsame
    rw [isSome_change] at hlive₁ hlive₂
    exact h.apart o₁ o₂ hlive₁ hlive₂ hsame
  noted := by
    intro place o' a hentry
    rw [isSome_change]
    exact h.noted place o' a hentry
  kept := by
    intro o' a hlive hissued
    rw [isSome_change] at hlive
    exact h.kept o' a hlive hissued
  gone := by
    intro o' ho'
    obtain ⟨hlt, hnone⟩ := h.gone o' ho'
    refine ⟨hlt, ?_⟩
    rw [← Option.isNone_iff_eq_none, ← Option.not_isSome, isSome_change, hnone]
    rfl

private theorem live_of_collect {o o' : Nat} (hlive : ((t.collect o).object o').isSome = true) :
    o' ≠ o ∧ (t.object o').isSome = true := by
  unfold WeakTable.collect at hlive
  dsimp only at hlive
  by_cases ho : o' = o
  · rw [ho, update_self] at hlive
    cases hlive
  · rw [update_of_ne ho] at hlive
    exact ⟨ho, hlive⟩

/-- The finalizer of an object that goes has to run if the table holds its reference. -/
theorem Exact.collect (h : Exact t issued) (o : Nat) : Exact (t.collect o) issued where
  fresh := by
    intro o' ho'
    obtain ⟨hobject, hissued⟩ := h.fresh o' ho'
    refine ⟨?_, hissued⟩
    unfold WeakTable.collect
    dsimp only
    by_cases ho : o' = o
    · rw [ho, update_self]
    · rw [update_of_ne ho, hobject]
  apart := by
    intro o₁ o₂ hlive₁ hlive₂ hsame
    exact h.apart o₁ o₂ (live_of_collect hlive₁).2 (live_of_collect hlive₂).2 hsame
  noted := by
    intro place o' a hentry
    obtain ⟨haddress, hissued, hwhere⟩ := h.noted place o' a hentry
    refine ⟨haddress, hissued, ?_⟩
    unfold WeakTable.collect
    dsimp only
    by_cases ho : o' = o
    · right
      have hholds : t.holds o = true := holds_iff.2 ⟨a, by rw [← ho, haddress]; exact hentry⟩
      rw [if_pos hholds, ho]
      exact List.mem_cons_self
    · rw [update_of_ne ho]
      rcases hwhere with hlive | hpending
      · exact .inl hlive
      · right
        split
        · exact List.mem_cons_of_mem _ hpending
        · exact hpending
  kept := by
    intro o' a hlive hissued
    exact h.kept o' a (live_of_collect hlive).2 hissued
  gone := by
    intro o' ho'
    have hold : o' = o ∧ t.holds o = true ∨ o' ∈ t.pending := by
      unfold WeakTable.collect at ho'
      dsimp only at ho'
      split at ho'
      · rename_i hholds
        rcases List.mem_cons.1 ho' with heq | hmem
        · exact .inl ⟨heq, hholds⟩
        · exact .inr hmem
      · exact .inr ho'
    unfold WeakTable.collect
    dsimp only
    rcases hold with ⟨rfl, hholds⟩ | hmem
    · obtain ⟨a, hentry⟩ := holds_iff.1 hholds
      exact ⟨h.noted_lt hentry, update_self ..⟩
    · obtain ⟨hlt, hnone⟩ := h.gone o' hmem
      refine ⟨hlt, ?_⟩
      by_cases ho : o' = o
      · rw [ho, update_self]
      · rw [update_of_ne ho, hnone]

/-- A finalizer takes back nothing but the note on its own object, however late it runs. -/
theorem Exact.discard (h : Exact t issued) (o : Nat) : Exact (t.discard o) issued := by
  unfold WeakTable.discard
  by_cases hcontains : t.pending.contains o = true
  · rw [if_pos hcontains]
    have hpending : o ∈ t.pending := List.contains_iff_mem.1 hcontains
    have hdead := (h.gone o hpending).2
    -- what is left in the table was there before, and is not the note on this object
    have hleft : ∀ place o' a,
        (if t.holds o then update t.entry (t.address o) none else t.entry) place = some (o', a) →
          t.entry place = some (o', a) ∧ o' ≠ o := by
      intro place o' a hentry
      split at hentry
      · by_cases hplace : place = t.address o
        · rw [hplace, update_self] at hentry
          cases hentry
        · rw [update_of_ne hplace] at hentry
          refine ⟨hentry, fun heq => hplace ?_⟩
          rw [← heq]
          exact (h.noted place o' a hentry).1.symm
      · rename_i hholds
        refine ⟨hentry, fun heq => hholds (holds_iff.2 ⟨a, ?_⟩)⟩
        rw [← heq, (h.noted place o' a hentry).1]
        exact hentry
    refine ⟨h.fresh, h.apart, fun place o' a hentry => ?_, fun o' a hlive hissued => ?_, fun o' ho' => ?_⟩
    · obtain ⟨hentry, hne⟩ := hleft place o' a hentry
      obtain ⟨haddress, hissued, hwhere⟩ := h.noted place o' a hentry
      refine ⟨haddress, hissued, hwhere.imp_right fun hmem => ?_⟩
      exact List.mem_filter.2 ⟨hmem, bne_iff_ne.2 hne⟩
    · have hentry := h.kept o' a hlive hissued
      dsimp only
      split
      · rename_i hholds
        obtain ⟨a', hown⟩ := holds_iff.1 hholds
        have hne : t.address o' ≠ t.address o := by
          intro hsame
          rw [hsame, hown] at hentry
          cases hentry
          rw [hdead] at hlive
          cases hlive
        rw [update_of_ne hne]
        exact hentry
      · exact hentry
    · exact h.gone o' (List.mem_filter.1 ho').1
  · rw [if_neg hcontains]
    exact h

end WeakTable
