import Mathlib.Data.List.Forall2

/-!
# Self-delimiting texts

The text of a value stands among others, and a reader has to find out where it ends.  A value is `Told` by a code if
its text, followed by nothing or by something that may follow a text, begins like no text of a value that is read
differently, and what follows is found again.  Runs of one kind of elements are told apart by what cannot be in them
(`append_inj_of_run`), and lists of values by a separator and a closing element (`Told.joined`).
-/

namespace SelfDelimiting

variable {α β γ : Type*}

/-- Nothing follows, or something that begins with an element of this kind. -/
def StopsAt (stop : α → Prop) (x : List α) : Prop := ∀ c ∈ x.head?, stop c

theorem StopsAt.nil {stop : α → Prop} : StopsAt stop [] := fun c hc => (by cases hc)

theorem StopsAt.cons {stop : α → Prop} {c : α} (hc : stop c) (x : List α) : StopsAt stop (c :: x) := by
  intro d hd
  cases hd
  exact hc

/-- Runs of elements of one kind end where an element of another kind follows. -/
theorem append_inj_of_run {p : α → Prop} {l m x y : List α} (hl : ∀ a ∈ l, p a) (hm : ∀ a ∈ m, p a)
    (hx : StopsAt (fun c => ¬ p c) x) (hy : StopsAt (fun c => ¬ p c) y) (h : l ++ x = m ++ y) : l = m ∧ x = y := by
  induction l generalizing m with
  | nil =>
    cases m with
    | nil => exact ⟨rfl, h⟩
    | cons b m =>
      rw [List.nil_append, List.cons_append] at h
      exact absurd (hm b List.mem_cons_self) (hx b (by rw [h]; rfl))
  | cons a l ih =>
    cases m with
    | nil =>
      rw [List.nil_append, List.cons_append] at h
      exact absurd (hl a List.mem_cons_self) (hy a (by rw [← h]; rfl))
    | cons b m =>
      obtain ⟨rfl, htail⟩ := List.cons.inj h
      obtain ⟨rfl, hrest⟩ := ih (List.forall_mem_cons.1 hl).2 (List.forall_mem_cons.1 hm).2 htail
      exact ⟨rfl, hrest⟩

/-! ### Codes -/

/-- The text of this value is told from that of every value that is read differently. -/
def Told (code : β → List α → Prop) (read : β → γ) (stop : α → Prop) (v : β) : Prop :=
  ∀ w l m x y, code v l → code w m → StopsAt stop x → StopsAt stop y → l ++ x = m ++ y → read v = read w ∧ x = y

/-- Texts with a separator between them. -/
def joined (sep : α) : List (List α) → List α
  | [] => []
  | [l] => l
  | l :: ls => l ++ sep :: joined sep ls

/-- What stands behind the first text of a list that is closed. -/
def rest (sep close : α) (ls : List (List α)) (x : List α) : List α :=
  if ls.isEmpty then close :: x else sep :: joined sep ls ++ close :: x

theorem joined_cons (sep close : α) (l : List α) (ls : List (List α)) (x : List α) :
    joined sep (l :: ls) ++ close :: x = l ++ rest sep close ls x := by
  cases ls with
  | nil => rfl
  | cons m ls =>
    show (l ++ sep :: joined sep (m :: ls)) ++ close :: x = l ++ (sep :: joined sep (m :: ls) ++ close :: x)
    rw [List.append_assoc]

variable {code : β → List α → Prop} {read : β → γ} {stop : α → Prop} {sep close : α}

private theorem stopsAt_rest (hsep : stop sep) (hclose : stop close) (ls : List (List α)) (x : List α) :
    StopsAt stop (rest sep close ls x) := by
  unfold rest
  split
  · exact .cons hclose x
  · exact .cons hsep _

/-- A closed list of values that are told is told, whatever follows it. -/
theorem Told.joined (hsep : stop sep) (hclose : stop close) (hne : sep ≠ close)
    (hfirst : ∀ v l, code v l → ∃ b rest, l = b :: rest ∧ b ≠ close) {vs ws : List β} {ls ms : List (List α)}
    {x y : List α} (htold : ∀ v ∈ vs, Told code read stop v) (hvs : List.Forall₂ code vs ls)
    (hws : List.Forall₂ code ws ms) (h : joined sep ls ++ close :: x = joined sep ms ++ close :: y) :
    vs.map read = ws.map read ∧ x = y := by
  induction hvs generalizing ws ms with
  | nil =>
    cases hws with
    | nil => exact ⟨rfl, (List.cons.inj h).2⟩
    | cons hw hws =>
      -- the other text begins where this one is closed
      obtain ⟨b, text, rfl, hb⟩ := hfirst _ _ hw
      rw [joined_cons] at h
      exact absurd (List.cons.inj h).1.symm hb
  | @cons v l vs ls hv hvs ih =>
    obtain ⟨htold, htolds⟩ := List.forall_mem_cons.1 htold
    cases hws with
    | nil =>
      obtain ⟨b, text, rfl, hb⟩ := hfirst _ _ hv
      rw [joined_cons] at h
      exact absurd (List.cons.inj h).1 hb
    | @cons w m ws ms hw hws =>
      rw [joined_cons, joined_cons] at h
      obtain ⟨hread, hrest⟩ := htold w l m _ _ hv hw (stopsAt_rest hsep hclose ls x)
        (stopsAt_rest hsep hclose ms y) h
      unfold rest at hrest
      cases hvs with
      | nil =>
        cases hws with
        | nil =>
          refine ⟨?_, (List.cons.inj hrest).2⟩
          rw [List.map_singleton, List.map_singleton, hread]
        | cons hw' hws => exact absurd (List.cons.inj hrest).1.symm hne
      | cons hv' hvs =>
        cases hws with
        | nil => exact absurd (List.cons.inj hrest).1 hne
        | cons hw' hws =>
          obtain ⟨hreads, hend⟩ := ih htolds (.cons hw' hws) (List.cons.inj hrest).2
          rw [List.map_cons, hread, hreads, List.map_cons]
          exact ⟨rfl, hend⟩

end SelfDelimiting
