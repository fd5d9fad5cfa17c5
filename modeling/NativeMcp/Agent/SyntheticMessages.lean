import NativeMcp.Agent.ProviderRequests
import NativeMcp.Lib.Program
import NativeMcp.Lib.WeakTable

/-!
# Synthetic messages

`synthetic_fixture_message` makes a message of one of the committed fixtures and notes its identity; only a message that
is noted, and still is as it was made, may leave the machine.  Messages can be copied, forged and changed, the values of
the fixtures can be changed as well, and the identity of a message that is gone is used again, before or after the
finalizer of its reference has run (`authorized_iff`).
-/

namespace NativeMcp.Agent

namespace Synthetic

/-! ### Fixtures -/

/-- `SyntheticFixture` -/
inductive SyntheticFixture where
  | testPrompt
  | manualSmokePrompt
  deriving DecidableEq, Repr

namespace SyntheticFixture

/-- The members of a `_SyntheticFixtureSpec`; `wire_role` is the value of the role. -/
def messageRole : SyntheticFixture → MessageRole
  | _ => .user

def content : SyntheticFixture → Str
  | .testPrompt => chars "synthetic-only prompt"
  | .manualSmokePrompt => chars "Return a short synthetic acknowledgement."

/-- `expected_fixture_value`; a role is equal to its text. -/
def expectedValue (f : SyntheticFixture) : Str × Str := (chars f.messageRole.value, f.content)

end SyntheticFixture

/-! ### Messages -/

/-- An object that may be given as a message: whether its type is `_AuthorizedSyntheticMessage`, and its members; `none`
where a role is no `MessageRole` or a content no text. -/
structure MessageObject where
  authorized : Bool
  role : Option MessageRole
  content : Option Str
  deriving DecidableEq

/-- The message of a fixture. -/
def SyntheticFixture.message (f : SyntheticFixture) : MessageObject := ⟨true, some f.messageRole, some f.content⟩

/-- The messages, the values of the fixtures (`none` where one is no pair of texts), and the table `issued`. -/
structure MessageHeap where
  value : SyntheticFixture → Option (Str × Str) := fun f => some f.expectedValue
  table : WeakTable MessageObject SyntheticFixture := {}

namespace MessageHeap

/-- `committed_fixture`; any object may be given in the place of a fixture. -/
def committedFixture (h : MessageHeap) : Option SyntheticFixture → Except Raised SyntheticFixture
  | none => .error (.provider .localAuthorizationFailure)
  | some f => do
    require (h.value f = some f.expectedValue) .localAuthorizationFailure
    return f

/-- `authorize`; the new message is given an address that is free. -/
def authorize (fixture : Option SyntheticFixture) (place : Nat) : Program MessageHeap Raised Nat := do
  let h ← Program.get
  let spec ← Program.lift (h.committedFixture fixture)
  let message := h.table.next
  if h.table.isFree place then do
    Program.modify fun h => { h with table := h.table.create spec.message place }
    Program.modify fun h => { h with table := h.table.write message spec }
    return message
  else Program.suspend

/-- `authorized_fixture` of the object of this number. -/
def authorizedFixture (h : MessageHeap) (o : Nat) : Option SyntheticFixture := do
  let message ← h.table.object o
  if message.authorized then do
    let spec ← h.table.note o
    if h.value spec ≠ some spec.expectedValue ∨ message.role ≠ some spec.messageRole ∨
        message.content ≠ some spec.content then none
    else some spec
  else none

/-- What happens to messages and fixtures. -/
inductive Operation where
  | authorize (fixture : Option SyntheticFixture) (place : Nat)
  /-- A message that is made in another way: by hand, as a copy, or without its constructor. -/
  | create (message : MessageObject) (place : Nat)
  /-- A message is changed although it is frozen. -/
  | change (o : Nat) (message : MessageObject)
  | changeFixture (f : SyntheticFixture) (value : Option (Str × Str))
  | collect (o : Nat)
  | discard (o : Nat)

def perform (h : MessageHeap) : Operation → MessageHeap
  | .authorize fixture place => (authorize fixture place h).2
  | .create message place =>
    if h.table.isFree place then { h with table := h.table.create message place } else h
  | .change o message => { h with table := h.table.change o message }
  | .changeFixture f value => { h with value := Function.update h.value f value }
  | .collect o => { h with table := h.table.collect o }
  | .discard o => { h with table := h.table.discard o }

def after (operations : List Operation) : MessageHeap := operations.foldl perform {}

end MessageHeap

/-! ### Authority -/

open MessageHeap

/-- `authorize` has returned this object for this fixture. -/
def Minted (operations : List MessageHeap.Operation) (o : Nat) (f : SyntheticFixture) : Prop :=
  ∃ before place later, operations = before ++ .authorize (some f) place :: later ∧
    (MessageHeap.authorize (some f) place (after before)).1 = .returned o

theorem minted_concat {operations : List MessageHeap.Operation} {operation : MessageHeap.Operation} {o : Nat}
    {f : SyntheticFixture} :
    Minted (operations ++ [operation]) o f ↔ Minted operations o f ∨ ∃ place,
      operation = .authorize (some f) place ∧
        (MessageHeap.authorize (some f) place (after operations)).1 = .returned o := by
  constructor
  · rintro ⟨before, place, later, hsplit, hreturned⟩
    rcases List.eq_nil_or_concat later with rfl | ⟨later, last, rfl⟩
    · obtain ⟨rfl, hlast⟩ := List.append_inj' hsplit rfl
      cases hlast
      exact .inr ⟨place, rfl, hreturned⟩
    · rw [List.concat_eq_append, ← List.cons_append, ← List.append_assoc] at hsplit
      exact .inl ⟨before, place, later, (List.append_inj' hsplit rfl).1, hreturned⟩
  · rintro (⟨before, place, later, rfl, hreturned⟩ | ⟨place, rfl, hreturned⟩)
    · exact ⟨before, place, later ++ [operation], by simp, hreturned⟩
    · exact ⟨operations, place, [], rfl, hreturned⟩

/-- `authorize` returns the next object, with its note, or leaves everything as it is. -/
theorem authorize_cases (fixture : Option SyntheticFixture) (place : Nat) (h : MessageHeap) :
    ((∀ o, (MessageHeap.authorize fixture place h).1 ≠ .returned o) ∧ (MessageHeap.authorize fixture place h).2 = h) ∨
      ∃ f, fixture = some f ∧ h.table.isFree place = true ∧ MessageHeap.authorize fixture place h =
        (.returned h.table.next, { h with table := (h.table.create f.message place).write h.table.next f }) := by
  unfold MessageHeap.authorize
  rw [Program.bind_apply, Program.get_apply]
  dsimp only
  rw [Program.bind_apply]
  cases hspec : h.committedFixture fixture with
  | error raised => exact .inl ⟨fun o ho => (by cases ho), rfl⟩
  | ok spec =>
    have hfixture : fixture = some spec := by
      unfold committedFixture at hspec
      cases fixture with
      | none => cases hspec
      | some f =>
        obtain ⟨-, hspec⟩ := require_bind_eq_ok.1 hspec
        cases hspec
        rfl
    rw [Program.lift_ok, Program.pure_apply]
    dsimp only
    by_cases hfree : h.table.isFree place = true
    · rw [if_pos hfree]
      exact .inr ⟨spec, hfixture, hfree, rfl⟩
    · rw [if_neg hfree]
      exact .inl ⟨fun o ho => (by cases ho), rfl⟩

/-- The table has the notes of the messages that have been minted. -/
def Kept (operations : List MessageHeap.Operation) : Prop :=
  ∃ issued, (after operations).table.Exact issued ∧ ∀ o f, issued o = some f ↔ Minted operations o f

theorem after_concat (operations : List MessageHeap.Operation) (operation : MessageHeap.Operation) :
    after (operations ++ [operation]) = (after operations).perform operation := by
  unfold after
  rw [List.foldl_append]
  rfl

/-- An operation that mints nothing. -/
private theorem kept_same {operations : List MessageHeap.Operation} {operation : MessageHeap.Operation}
    {issued : Nat → Option SyntheticFixture}
    (hissued : ∀ o f, issued o = some f ↔ Minted operations o f)
    (hkeeps : ((after operations).perform operation).table.Exact issued)
    (hother : ∀ f place o, operation = .authorize (some f) place →
      (MessageHeap.authorize (some f) place (after operations)).1 ≠ .returned o) :
    Kept (operations ++ [operation]) := by
  refine ⟨issued, ?_, fun o f => ?_⟩
  · rw [after_concat]
    exact hkeeps
  · rw [hissued, minted_concat]
    constructor
    · exact .inl
    · rintro (hminted | ⟨place, heq, hreturned⟩)
      · exact hminted
      · exact absurd hreturned (hother f place o heq)

theorem kept (operations : List MessageHeap.Operation) : Kept operations := by
  induction operations using List.reverseRecOn with
  | nil =>
    refine ⟨fun _ => none, WeakTable.Exact.empty, fun o f => ⟨fun h => (by cases h), ?_⟩⟩
    rintro ⟨before, place, later, hsplit, -⟩
    cases before <;> cases hsplit
  | append_singleton operations operation ih =>
    obtain ⟨issued, hexact, hissued⟩ := ih
    cases operation with
    | authorize fixture place =>
      rcases authorize_cases fixture place (after operations) with ⟨hnone, hsame⟩ | ⟨f, rfl, hfree, hauthorize⟩
      · refine kept_same hissued ?_ fun f place' o heq => ?_
        · unfold perform
          dsimp only
          rw [hsame]
          exact hexact
        · cases heq
          exact hnone o
      · -- the new message is noted, and nothing has been noted of it before
        have hcreated := hexact.create hfree f.message
        have hlive : (((after operations).table.create f.message place).object (after operations).table.next).isSome =
            true := by
          unfold WeakTable.create
          dsimp only
          rw [Function.update_self]
          rfl
        have hwritten := hcreated.write hlive f
        refine ⟨Function.update issued (after operations).table.next (some f), ?_, fun o f' => ?_⟩
        · rw [after_concat]
          unfold perform
          dsimp only
          rw [hauthorize]
          exact hwritten
        · rw [minted_concat]
          by_cases ho : o = (after operations).table.next
          · rw [ho, Function.update_self]
            constructor
            · intro heq
              cases heq
              exact .inr ⟨place, rfl, by rw [hauthorize]⟩
            · rintro (hminted | ⟨place', heq, -⟩)
              · rw [← hissued, (hexact.fresh _ (Nat.le_refl _)).2] at hminted
                cases hminted
              · cases heq
                rfl
          · rw [Function.update_of_ne ho, hissued]
            constructor
            · exact .inl
            · rintro (hminted | ⟨place', heq, hreturned⟩)
              · exact hminted
              · cases heq
                rw [hauthorize] at hreturned
                cases hreturned
                exact absurd rfl ho
    | create message place =>
      refine kept_same hissued ?_ fun f place' o heq => (by cases heq)
      unfold perform
      dsimp only
      split
      · rename_i hfree
        exact hexact.create hfree message
      · exact hexact
    | change o message =>
      exact kept_same hissued (hexact.change o message) fun f place' o heq => (by cases heq)
    | changeFixture f value =>
      exact kept_same hissued hexact fun f place' o heq => (by cases heq)
    | collect o =>
      exact kept_same hissued (hexact.collect o) fun f place' o heq => (by cases heq)
    | discard o =>
      exact kept_same hissued (hexact.discard o) fun f place' o heq => (by cases heq)

theorem authorizedFixture_iff (operations : List MessageHeap.Operation) (o : Nat) (f : SyntheticFixture) :
    (after operations).authorizedFixture o = some f ↔
      Minted operations o f ∧ (after operations).table.object o = some f.message ∧
        (after operations).value f = some f.expectedValue := by
  obtain ⟨issued, hexact, hissued⟩ := kept operations
  rw [← hissued]
  generalize after operations = h at hexact ⊢
  unfold authorizedFixture
  constructor
  · intro hfound
    obtain ⟨message, hobject, hfound⟩ := Option.bind_eq_some_iff.1 hfound
    split at hfound
    · rename_i hauthorized
      obtain ⟨spec, hnote, hfound⟩ := Option.bind_eq_some_iff.1 hfound
      have hlive : (h.table.object o).isSome = true := by rw [hobject]; rfl
      rw [hexact.note_eq_some hlive] at hnote
      split at hfound
      · cases hfound
      · rename_i hsame
        cases hfound
        simp only [ne_eq, not_or, not_not] at hsame
        obtain ⟨hvalue, hrole, hcontent⟩ := hsame
        refine ⟨hnote, ?_, hvalue⟩
        rw [hobject]
        unfold SyntheticFixture.message
        rw [← hrole, ← hcontent, ← hauthorized]
    · cases hfound
  · rintro ⟨hnote, hobject, hvalue⟩
    have hlive : (h.table.object o).isSome = true := by rw [hobject]; rfl
    rw [hobject, (hexact.note_eq_some hlive).2 hnote]
    simp [SyntheticFixture.message, hvalue]

/-- Whatever happens to messages, fixtures and addresses: an object passes for a fixture exactly if it is the very
object that `authorize` has returned for this fixture, and neither it nor the fixture has been changed.  What the table
notes is of messages that have been minted, and live unless their finalizers have still to run. -/
theorem authorized_iff (operations : List MessageHeap.Operation) :
    (∀ o f, (after operations).authorizedFixture o = some f ↔
      Minted operations o f ∧ (after operations).table.object o = some f.message ∧
        (after operations).value f = some f.expectedValue) ∧
    ∀ place o f, (after operations).table.entry place = some (o, f) →
      Minted operations o f ∧
        (((after operations).table.object o).isSome = true ∨ o ∈ (after operations).table.pending) := by
  refine ⟨authorizedFixture_iff operations, fun place o f hentry => ?_⟩
  obtain ⟨issued, hexact, hissued⟩ := kept operations
  obtain ⟨-, hnote, hwhere⟩ := hexact.noted place o f hentry
  exact ⟨(hissued o f).1 hnote, hwhere⟩

/-- A forgery at the address of a message that is gone, the finalizer of which has not run. -/
example : authorizedFixture (after [.authorize (some .testPrompt) 7, .collect 0,
    .create SyntheticFixture.testPrompt.message 7]) 1 = none := by decide +kernel

end Synthetic

end NativeMcp.Agent
