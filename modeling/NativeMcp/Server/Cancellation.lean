import NativeMcp.Scheduler.Admission
import NativeMcp.Server.Lines

/-!
# Request identifiers as keys

`request_key` flattens an identifier into a text: a letter for the kind of value, a colon, and the string or the decimal
digits.  Two identifiers have one key exactly if they are one JSON value, an integer being one value however it is
stored.  So what the scheduler decides by keys, whom a cancellation marks and which call is a duplicate, it decides by
identifiers.
-/

namespace NativeMcp

open Scheduler Json JsonRpc

/-! ### Decimal digits -/

/-- A byte as a character. -/
private def charOf (b : UInt8) : Char := Char.ofNat b.toNat

private theorem charOf_digit {c : Char} (h : c.isDigit = true) : charOf (UInt8.ofNat c.toNat) = c := by
  have hle : c.toNat ≤ 57 := by
    have h9 := (Bool.and_eq_true_iff.1 h).2
    exact of_decide_eq_true h9
  unfold charOf
  rw [UInt8.toNat_ofNat', Nat.mod_eq_of_lt (by omega), Char.ofNat_toNat]

theorem decimal_inj {n m : Nat} (h : decimal n = decimal m) : n = m := by
  have hback : ∀ k, (decimal k).map charOf = Nat.toDigits 10 k := by
    intro k
    unfold decimal
    rw [List.map_map]
    conv_rhs => rw [← List.map_id (Nat.toDigits 10 k)]
    refine List.map_congr_left fun c hc => ?_
    exact charOf_digit (Nat.isDigit_of_mem_toDigits (by decide) (by decide) hc)
  have hdigits : Nat.toDigits 10 n = Nat.toDigits 10 m := by
    rw [← hback n, ← hback m, h]
  have hn := @Nat.ofDigitChars_ten_toDigits n
  rw [hdigits, Nat.ofDigitChars_ten_toDigits] at hn
  exact hn.symm

/-! ### Keys -/

/-- What an identifier is as JSON. -/
inductive IdValue where
  | text (s : Bytes)
  | integer (i : Int)
  deriving DecidableEq, Repr

/-- The value of an identifier: an integer is one value however it is stored. -/
def idValue : Json → Option IdValue
  | .string s => some (.text s)
  | .numberInteger i => some (.integer i)
  | .numberUnsigned n => some (.integer n)
  | _ => none

/-- The letter of a key. -/
private def letter : IdValue → UInt8
  | .text _ => 0x73
  | .integer (.ofNat _) => 0x6A
  | .integer (.negSucc _) => 0x69

/-- What follows the letter and the colon. -/
private def spelling : IdValue → Bytes
  | .text s => s
  | .integer i => decimalInt i

theorem isValidId_iff {id : Json} : isValidId id = true ↔ ∃ v, idValue id = some v := by
  cases id <;> simp [isValidId, idValue]

private theorem requestKey_of_idValue {id : Json} {v : IdValue} (h : idValue id = some v) :
    requestKey id = some (letter v :: 0x3A :: spelling v) := by
  cases id with
  | string s =>
    rw [← Option.some.inj h]
    rfl
  | numberInteger i =>
    rw [← Option.some.inj h]
    cases i with
    | ofNat n =>
      rw [requestKey, if_pos (show (0 : Int) ≤ Int.ofNat n from Int.natCast_nonneg n)]
      rfl
    | negSucc n =>
      rw [requestKey, if_neg (Int.not_le.2 (Int.negSucc_lt_zero n))]
      rfl
  | numberUnsigned n =>
    rw [← Option.some.inj h]
    rfl
  | _ => cases h

private theorem idValue_inj {v v' : IdValue} (hletter : letter v = letter v') (h : spelling v = spelling v') :
    v = v' := by
  cases v with
  | text s =>
    cases v' with
    | text s' => exact congrArg IdValue.text h
    | integer i => cases i <;> cases hletter
  | integer i =>
    cases v' with
    | text s => cases i <;> cases hletter
    | integer i' =>
      cases i with
      | ofNat n =>
        cases i' with
        | ofNat n' =>
          have hsame : n = n' := decimal_inj h
          rw [hsame]
        | negSucc n' => cases hletter
      | negSucc n =>
        cases i' with
        | ofNat n' => cases hletter
        | negSucc n' =>
          have hsame : n + 1 = n' + 1 := decimal_inj (List.append_cancel_left h)
          rw [Nat.succ.inj hsame]

/-- A valid identifier shares its key with the identifiers of its value and no others. -/
theorem requestKey_eq_iff {id other : Json} (h : isValidId id = true) :
    requestKey id = requestKey other ↔ idValue id = idValue other := by
  obtain ⟨v, hv⟩ := isValidId_iff.1 h
  cases hother : idValue other with
  | some v' =>
    rw [requestKey_of_idValue hv, requestKey_of_idValue hother, hv]
    constructor
    · intro hkey
      obtain ⟨hletter, hspelling⟩ := List.cons.inj (Option.some.inj hkey)
      rw [idValue_inj hletter (List.cons.inj hspelling).2]
    · intro hvalue
      rw [Option.some.inj hvalue]
  | none =>
    rw [hv, requestKey_of_idValue hv]
    constructor
    · intro hkey
      -- the keys of all other values begin with another letter
      have hhead : ∀ key, requestKey other = some key → key.head? = some 0x6E ∨ key.head? = some 0x78 := by
        have hdump : ∀ key, other.dump.map (bytes "x:" ++ ·) = some key → key.head? = some 0x78 := by
          intro key hkey
          obtain ⟨text, -, hkey⟩ := Option.map_eq_some_iff.1 hkey
          rw [← hkey]
          rfl
        intro key hkey
        cases other with
        | null =>
          left
          rw [← Option.some.inj hkey]
          rfl
        | string s => cases hother
        | numberInteger i => cases hother
        | numberUnsigned n => cases hother
        | _ => exact .inr (hdump key hkey)
      have hletter := hhead _ hkey.symm
      rw [List.head?_cons, Option.some.injEq, Option.some.injEq] at hletter
      cases v with
      | text s => simp [letter] at hletter
      | integer i => cases i <;> simp [letter] at hletter
    · intro hvalue
      cases hvalue

/-! ### Calls -/

section

variable {b : ResourceBudget} {s : State} {h : Handle}

/-- The key of a valid identifier finds the call in flight that has its value. -/
private theorem lookup_key_iff (hs : (system b).Reachable s) {id : Json} (hid : isValidId id = true) :
    ((requestKey id).bind fun key => s.inFlight.lookup key) = some h ↔
      h ∈ s.inFlight.map Prod.snd ∧ idValue (s.control h).call.requestId = idValue id := by
  have hc := custody hs
  have hkeyed : (s.pc h).InFlight → requestKey (s.control h).call.requestId = some (s.control h).key := by
    intro hp
    refine hc.keyed h ?_
    intro habsent
    rw [show s.pc h = .absent from habsent] at hp
    exact hp
  have hmem : h ∈ s.inFlight.map Prod.snd ↔ (s.pc h).InFlight := hc.table.mem_items
  have hlookup : ∀ key, s.inFlight.lookup key = some h ↔ (s.pc h).InFlight ∧ key = (s.control h).key :=
    fun key => hc.table.lookup_eq_some
  rw [Option.bind_eq_some_iff, hmem]
  constructor
  · intro hfound
    obtain ⟨key, hkey, hentry⟩ := hfound
    obtain ⟨hp, rfl⟩ := (hlookup key).1 hentry
    exact ⟨hp, ((requestKey_eq_iff hid).1 (hkey.trans (hkeyed hp).symm)).symm⟩
  · intro hfound
    obtain ⟨hp, hvalue⟩ := hfound
    refine ⟨(s.control h).key, ?_, (hlookup _).2 ⟨hp, rfl⟩⟩
    rw [(requestKey_eq_iff hid).2 hvalue.symm]
    exact hkeyed hp

private theorem cancel_marks (hs : (system b).Reachable s) {t : ThreadId} {id : Json} (hid : isValidId id = true) :
    ((cancel s t id).control h).cancelledByClient = true ↔ (s.control h).cancelledByClient = true ∨
      h ∈ s.inFlight.map Prod.snd ∧ idValue (s.control h).call.requestId = idValue id := by
  rw [← lookup_key_iff hs hid]
  unfold cancel
  cases hfound : (requestKey id).bind fun key => s.inFlight.lookup key with
  | none =>
    constructor
    · exact Or.inl
    · intro hmarked
      rcases hmarked with hmarked | hmarked
      · exact hmarked
      · cases hmarked
  | some found =>
    have hcontrol : (((s.mark [found]).setOp t (.stopping [found])).log (.cancelHit found)).control h =
        if h ∈ [found] then { s.control h with cancelledByClient := true } else s.control h := rfl
    dsimp only
    rw [hcontrol, Option.some.injEq]
    by_cases hsame : found = h
    · rw [if_pos (List.mem_singleton.2 hsame.symm)]
      exact ⟨fun _ => .inr hsame, fun _ => rfl⟩
    · rw [if_neg fun hmem => hsame (List.mem_singleton.1 hmem).symm]
      constructor
      · exact Or.inl
      · intro hmarked
        rcases hmarked with hmarked | hmarked
        · exact hmarked
        · exact absurd hmarked hsame

private theorem cancel_stops (hs : (system b).Reachable s) {t : ThreadId} {id : Json} (hid : isValidId id = true) :
    (cancel s t id).op t = .stopping [h] ↔
      h ∈ s.inFlight.map Prod.snd ∧ idValue (s.control h).call.requestId = idValue id := by
  rw [← lookup_key_iff hs hid]
  unfold cancel
  cases hfound : (requestKey id).bind fun key => s.inFlight.lookup key with
  | none =>
    have hop : (s.setOp t .idle).op t = .idle := Function.update_self ..
    dsimp only
    rw [hop]
    constructor
    · intro heq
      cases heq
    · intro heq
      cases heq
  | some found =>
    have hop : (((s.mark [found]).setOp t (.stopping [found])).log (.cancelHit found)).op t = .stopping [found] :=
      Function.update_self ..
    dsimp only
    rw [hop, Option.some.injEq]
    constructor
    · intro heq
      rw [Op.stopping.injEq, List.cons.injEq] at heq
      exact heq.1
    · intro heq
      rw [heq]

private theorem admission_duplicate_iff (hs : (system b).Reachable s) {t : ThreadId} (hp : s.pc h = .submitted)
    (hid : isValidId (s.control h).call.requestId = true) :
    (admission s t h).history = .submitReturned h .duplicateRequestId :: s.history ↔ s.accepting = true ∧
      ∃ other ∈ s.inFlight.map Prod.snd,
        idValue (s.control other).call.requestId = idValue (s.control h).call.requestId := by
  have hkey : requestKey (s.control h).call.requestId = some (s.control h).key := by
    refine (custody hs).keyed h ?_
    intro habsent
    rw [show s.pc h = .absent from habsent] at hp
    cases hp
  have htaken : (s.inFlight.lookup (s.control h).key).isSome = true ↔ ∃ other ∈ s.inFlight.map Prod.snd,
      idValue (s.control other).call.requestId = idValue (s.control h).call.requestId := by
    rw [Option.isSome_iff_exists]
    refine exists_congr fun other => ?_
    rw [← lookup_key_iff hs hid, hkey, Option.bind_some]
  rw [← htaken]
  unfold admission
  cases hacc : s.accepting with
  | false =>
    rw [if_pos (show (!false) = true from rfl)]
    constructor
    · intro heq
      cases (List.cons.inj heq).1
    · intro heq
      cases heq.1
  | true =>
    rw [if_neg (by decide)]
    by_cases htable : (s.inFlight.lookup (s.control h).key).isSome = true
    · rw [if_pos htable]
      exact ⟨fun _ => ⟨rfl, htable⟩, fun _ => rfl⟩
    · rw [if_neg htable]
      constructor
      · intro heq
        by_cases hfull : s.budget.maxPendingRequests ≤ s.inFlight.length
        · rw [if_pos hfull] at heq
          cases (List.cons.inj heq).1
        · rw [if_neg hfull] at heq
          cases (List.cons.inj heq).1
      · intro heq
        exact absurd heq.2 htable

end

/-- A line makes the server cancel only with a valid identifier. -/
private theorem isValidId_of_acceptLine {N : Nlohmann} {server server' : Server} {line : Bytes} {action : LineAction}
    {notice : CancellationNotice} (h : server.acceptLine N line = some (action, server'))
    (hc : action.cancellation = some notice) : isValidId notice.requestId = true := by
  unfold Server.acceptLine at h
  split at h
  · obtain ⟨r, -, hr⟩ := Option.map_eq_some_iff.1 h
    cases hr
    cases hc
  split at h
  · split at h
    · obtain ⟨r, -, hr⟩ := Option.map_eq_some_iff.1 h
      cases hr
      cases hc
    · exact (Server.isCancellation_of_acceptMessage h hc).2
  · obtain ⟨r, -, hr⟩ := Option.map_eq_some_iff.1 h
    cases hr
    cases hc
  · obtain ⟨r, -, hr⟩ := Option.map_eq_some_iff.1 h
    cases hr
    cases hc

/-- Valid identifiers have one key exactly if they are one JSON value.  So in every reachable state a cancellation with
a valid identifier, and the server makes no other, marks and stops exactly the call in flight that has its value, which
is at most one, and a `submit` is refused as a duplicate exactly if a call with the value of its identifier is in flight
while the scheduler accepts calls; a scheduler that does not refuses it as stopped. -/
theorem request_ids_correct (b : ResourceBudget) :
    (∀ id id', isValidId id = true → isValidId id' = true →
      (requestKey id = requestKey id' ↔ idValue id = idValue id')) ∧
    (∀ N server server' line action notice, Server.acceptLine server N line = some (action, server') →
      action.cancellation = some notice → isValidId notice.requestId = true) ∧
    ∀ s, (system b).Reachable s →
      (∀ t id frame wake s', s.op t = .cancelling id → isValidId id = true → step s (.thread t frame wake) = some s' →
        (∀ h, (s'.control h).cancelledByClient = true ↔ (s.control h).cancelledByClient = true ∨
          h ∈ s.inFlight.map Prod.snd ∧ idValue (s.control h).call.requestId = idValue id) ∧
        (∀ h, s'.op t = .stopping [h] ↔
          h ∈ s.inFlight.map Prod.snd ∧ idValue (s.control h).call.requestId = idValue id) ∧
        ∀ h h', h ∈ s.inFlight.map Prod.snd → idValue (s.control h).call.requestId = idValue id →
          h' ∈ s.inFlight.map Prod.snd → idValue (s.control h').call.requestId = idValue id → h = h') ∧
      ∀ t h frame wake s', s.op t = .submitting h → s.pc h = .submitted →
        isValidId (s.control h).call.requestId = true → step s (.thread t frame wake) = some s' →
        (s'.history = .submitReturned h .duplicateRequestId :: s.history ↔ s.accepting = true ∧
          ∃ other ∈ s.inFlight.map Prod.snd,
            idValue (s.control other).call.requestId = idValue (s.control h).call.requestId) ∧
        (s.accepting = false → s'.history = .submitReturned h .stopped :: s.history) := by
  refine ⟨fun id id' hid _ => requestKey_eq_iff hid, fun N server server' line action notice h hc =>
    isValidId_of_acceptLine h hc, fun s hs => ⟨?_, ?_⟩⟩
  · intro t id frame wake s' hop hid hstep
    have hs' : some (cancel s t id) = some s' := by
      rw [← hstep]
      simp only [step, threadStep, hop]
    rw [← Option.some.inj hs']
    refine ⟨fun h => cancel_marks hs hid, fun h => cancel_stops hs hid, ?_⟩
    intro h h' hmem hvalue hmem' hvalue'
    have hfound := (lookup_key_iff hs hid).2 ⟨hmem, hvalue⟩
    have hfound' := (lookup_key_iff hs hid).2 ⟨hmem', hvalue'⟩
    exact Option.some.inj (hfound.symm.trans hfound')
  · intro t h frame wake s' hop hp hid hstep
    have hs' : some (admission s t h) = some s' := by
      rw [← hstep]
      simp only [step, threadStep, hop, submitStep, hp]
    rw [← Option.some.inj hs']
    refine ⟨admission_duplicate_iff hs hp hid, fun hstopped => ?_⟩
    unfold admission
    rw [hstopped]
    rfl

/-- One client submits a call under the integer 1 and one under the string "1", and another one cancels the unsigned 1. -/
private def cancelRun : List Action :=
  .invoke (.client 0) (.submit { requestId := .numberInteger 1, name := [], arguments := .object [] }) ::
    List.replicate 4 (.thread (.client 0) true none) ++
    .invoke (.client 0) (.submit { requestId := .text "1", name := [], arguments := .object [] }) ::
    List.replicate 4 (.thread (.client 0) true none) ++ [.invoke (.client 1) (.cancel (.numberUnsigned 1))]

/-- Both calls are accepted, and the first one is cancelled. -/
theorem request_ids_sample :
    ∃ s s', (system conservativeBudget).Reachable s ∧ step s (.thread (.client 1) true none) = some s' ∧
      .submitReturned 1 .accepted ∈ s.history ∧ (s'.control 0).cancelledByClient = true ∧
      (s'.control 1).cancelledByClient = false := by
  have hr : ∃ s, (machine conservativeBudget).run (initial conservativeBudget) cancelRun = some s ∧
      s.op (.client 1) = .cancelling (.numberUnsigned 1) ∧ s.inFlight.map Prod.snd = [1, 0] ∧
      (s.control 0).call.requestId = .numberInteger 1 ∧ (s.control 1).call.requestId = .text "1" ∧
      (s.control 1).cancelledByClient = false ∧ s.history = [.submitReturned 1 .accepted, .admitted 1,
        .submitReturned 0 .accepted, .admitted 0] := ⟨_, rfl, rfl, rfl, rfl, rfl, rfl, rfl⟩
  obtain ⟨s, hs, hop, hflight, hid, hid', hunmarked, hhistory⟩ := hr
  have hstep : step s (.thread (.client 1) true none) = some (cancel s (.client 1) (.numberUnsigned 1)) := by
    simp only [step, threadStep, hop]
  have hmarks := (((request_ids_correct conservativeBudget).2.2 s (reachable_of_run hs)).1 _ _ _ _ _ hop rfl hstep).1
  refine ⟨s, _, reachable_of_run hs, hstep, ?_, (hmarks 0).2 (.inr ⟨?_, ?_⟩), ?_⟩
  · rw [hhistory]
    exact List.mem_cons_self
  · rw [hflight]
    decide
  · rw [hid]
    rfl
  · rw [← Bool.not_eq_true, hmarks 1, hunmarked, hid']
    intro hmarked
    rcases hmarked with hmarked | hmarked
    · cases hmarked
    · exact absurd hmarked.2 (by decide)

end NativeMcp
