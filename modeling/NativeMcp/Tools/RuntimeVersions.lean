import NativeMcp.Tools.RuntimeConfig
import Mathlib.Data.List.Nodup
import Mathlib.Data.List.Perm.Subperm

/-!
# The two versions of the runtime policy

A version 2 text with some roots and no processes is accepted with the configuration of the version 1 text with these
roots, and is accepted besides where the roots are in order but for a `maxFileBytes` written `-0`: the signed zero is
serialized as `0` and read back unsigned (`versions_agree_iff`).
-/

namespace NativeMcp

open JsonText

namespace RuntimeConfig

/-! ### Objects -/

theorem isObject_reread (v : Json) : (reread v).isObject = v.isObject := by
  cases v with
  | numberInteger i => cases i <;> rfl
  | _ => rfl

private theorem lookup_map {m : List (Bytes × Json)} (k : Bytes) :
    (m.map fun p => (p.1, reread p.2)).lookup k = (m.lookup k).map reread := by
  induction m with
  | nil => rfl
  | cons p m ih =>
    rw [List.map_cons, List.lookup_cons, List.lookup_cons]
    split
    · rfl
    · exact ih

theorem find?_reread {v : Json} (h : Parsed v) (key : String) : (reread v).find? key = (v.find? key).map reread := by
  cases h with
  | object hs _ =>
    rw [reread_object hs]
    exact lookup_map (bytes key)
  | array _ => rw [reread_array]; rfl
  | @numberInteger i _ => cases i <;> rfl
  | _ => rfl

theorem size_reread {v : Json} (h : Parsed v) : (reread v).size = v.size := by
  cases h with
  | object hs _ => rw [reread_object hs, Json.size, Json.size, List.length_map]
  | array _ => rw [reread_array, Json.size, Json.size, List.length_map]
  | @numberInteger i _ => cases i <;> rfl
  | _ => rfl

theorem reread_eq_string {v : Json} {s : Bytes} : reread v = .string s ↔ v = .string s := by
  cases v with
  | numberInteger i => cases i <;> simp [reread, ofJson, value]
  | string t => rw [reread_string]
  | _ => simp [reread, ofJson, value]

/-- Only a zero that was written `-0` becomes unsigned. -/
theorem reread_eq_unsigned {v : Json} (h : Parsed v) {n : Nat} :
    reread v = .numberUnsigned n ↔ v = .numberUnsigned n ∨ v = .numberInteger 0 ∧ n = 0 := by
  cases h with
  | @numberInteger i hi =>
    rw [reread_numberInteger]
    by_cases hneg : i < 0
    · rw [if_pos hneg]
      simp only [Json.numberInteger.injEq, reduceCtorEq, false_or, false_iff, not_and]
      omega
    · obtain rfl : i = 0 := by omega
      simp [eq_comm]
  | _ => simp [reread, ofJson, value]

theorem parsed_of_find? {v w : Json} {key : String} (h : Parsed v) (hf : v.find? key = some w) : Parsed w := by
  cases h with
  | @object m _ hm =>
    have hmem : (bytes key, w) ∈ m := Json.mem_of_lookup hf
    exact hm _ hmem
  | _ => cases hf

/-! ### Root entries -/

/-- A root entry in order, but for a `maxFileBytes` that may be written `-0`. -/
structure RootEntry (v : Json) : Prop where
  isObject : v.isObject = true
  size : v.size = 3
  name : ∃ s, v.find? "name" = some (.string s)
  path : ∃ s, v.find? "path" = some (.string s)
  fileLimit : v.find? "maxFileBytes" = some (.numberInteger 0) ∨
    ∃ n, v.find? "maxFileBytes" = some (.numberUnsigned n)

theorem readRoot_eq_some_iff {v : Json} {root : RootPolicyConfig} :
    readRoot v = some root ↔ v.isObject = true ∧ v.size = 3 ∧ v.find? "name" = some (.string root.name) ∧
      v.find? "path" = some (.string root.path) ∧ v.find? "maxFileBytes" = some (.numberUnsigned root.maxFileBytes) := by
  unfold readRoot
  by_cases hshape : v.isObject = true ∧ v.size = 3
  · rw [if_pos (by simpa using hshape)]
    constructor
    · intro h
      split at h
      · rename_i name path fileLimit hname hpath hlimit
        cases h
        exact ⟨hshape.1, hshape.2, hname, hpath, hlimit⟩
      · cases h
    · rintro ⟨-, -, hname, hpath, hlimit⟩
      rw [hname, hpath, hlimit]
  · rw [if_neg (by simpa using hshape)]
    constructor
    · intro h
      cases h
    · rintro ⟨hobject, hsize, -⟩
      exact absurd ⟨hobject, hsize⟩ hshape

theorem readRoot_reread_eq_some_iff {v : Json} (h : Parsed v) {root : RootPolicyConfig} :
    readRoot (reread v) = some root ↔ v.isObject = true ∧ v.size = 3 ∧ v.find? "name" = some (.string root.name) ∧
      v.find? "path" = some (.string root.path) ∧
      (v.find? "maxFileBytes" = some (.numberUnsigned root.maxFileBytes) ∨
        v.find? "maxFileBytes" = some (.numberInteger 0) ∧ root.maxFileBytes = 0) := by
  have hstring : ∀ key s, ((v.find? key).map reread = some (.string s) ↔ v.find? key = some (.string s)) := by
    intro key s
    cases hf : v.find? key with
    | none => simp
    | some w => simp [reread_eq_string]
  have hlimit : ∀ n, ((v.find? "maxFileBytes").map reread = some (.numberUnsigned n) ↔
      v.find? "maxFileBytes" = some (.numberUnsigned n) ∨
        v.find? "maxFileBytes" = some (.numberInteger 0) ∧ n = 0) := by
    intro n
    cases hf : v.find? "maxFileBytes" with
    | none => simp
    | some w => simp [reread_eq_unsigned (parsed_of_find? h hf)]
  rw [readRoot_eq_some_iff, isObject_reread, size_reread h, find?_reread h, find?_reread h, find?_reread h, hstring,
    hstring, hlimit]

/-- Reading an entry back never turns it into a rejected one. -/
theorem readRoot_reread_of_readRoot {v : Json} (h : Parsed v) {root : RootPolicyConfig} (hr : readRoot v = some root) :
    readRoot (reread v) = some root := by
  obtain ⟨hobject, hsize, hname, hpath, hlimit⟩ := readRoot_eq_some_iff.1 hr
  exact (readRoot_reread_eq_some_iff h).2 ⟨hobject, hsize, hname, hpath, .inl hlimit⟩

theorem exists_readRoot_reread_iff {v : Json} (h : Parsed v) :
    (∃ root, readRoot (reread v) = some root) ↔ RootEntry v := by
  constructor
  · rintro ⟨root, hr⟩
    obtain ⟨hobject, hsize, hname, hpath, hlimit⟩ := (readRoot_reread_eq_some_iff h).1 hr
    refine ⟨hobject, hsize, ⟨_, hname⟩, ⟨_, hpath⟩, ?_⟩
    rcases hlimit with hlimit | ⟨hlimit, -⟩
    · exact .inr ⟨_, hlimit⟩
    · exact .inl hlimit
  · rintro ⟨hobject, hsize, ⟨name, hname⟩, ⟨path, hpath⟩, hlimit⟩
    rcases hlimit with hlimit | ⟨n, hlimit⟩
    · exact ⟨⟨name, path, 0⟩, (readRoot_reread_eq_some_iff h).2 ⟨hobject, hsize, hname, hpath, .inr ⟨hlimit, rfl⟩⟩⟩
    · exact ⟨⟨name, path, n⟩, (readRoot_reread_eq_some_iff h).2 ⟨hobject, hsize, hname, hpath, .inl hlimit⟩⟩

/-- An entry is rejected as it stands exactly if its limit is written `-0`. -/
theorem RootEntry.readRoot_eq_none_iff {v : Json} (h : RootEntry v) :
    readRoot v = none ↔ v.find? "maxFileBytes" = some (.numberInteger 0) := by
  obtain ⟨hobject, hsize, ⟨name, hname⟩, ⟨path, hpath⟩, hlimit⟩ := h
  rcases hlimit with hlimit | ⟨n, hlimit⟩
  · refine iff_of_true ?_ hlimit
    rw [Option.eq_none_iff_forall_ne_some]
    intro root hr
    obtain ⟨-, -, -, -, hunsigned⟩ := readRoot_eq_some_iff.1 hr
    rw [hlimit] at hunsigned
    cases hunsigned
  · refine iff_of_false ?_ ?_
    · have hr : readRoot v = some ⟨name, path, n⟩ :=
        readRoot_eq_some_iff.2 ⟨hobject, hsize, hname, hpath, hlimit⟩
      rw [hr]
      exact Option.some_ne_none _
    · rw [hlimit]
      intro he
      cases he

/-- The three members of an entry are all it has. -/
theorem RootEntry.integral {v : Json} (h : RootEntry v) : Integral v := by
  obtain ⟨hobject, hsize, ⟨name, hname⟩, ⟨path, hpath⟩, hlimit⟩ := h
  obtain ⟨limit, hlimit, hintegral⟩ : ∃ w, v.find? "maxFileBytes" = some w ∧ Integral w := by
    rcases hlimit with hlimit | ⟨n, hlimit⟩
    · exact ⟨_, hlimit, .numberInteger 0⟩
    · exact ⟨_, hlimit, .numberUnsigned n⟩
  cases v with
  | object m =>
    have hnodup : [bytes "name", bytes "path", bytes "maxFileBytes"].Nodup := by decide +kernel
    have hthree : [(bytes "name", Json.string name), (bytes "path", Json.string path),
        (bytes "maxFileBytes", limit)].Nodup := List.Nodup.of_map Prod.fst hnodup
    have hsub : [(bytes "name", Json.string name), (bytes "path", Json.string path),
        (bytes "maxFileBytes", limit)] ⊆ m := by
      intro p hp
      simp only [List.mem_cons, List.not_mem_nil, or_false] at hp
      rcases hp with rfl | rfl | rfl
      · exact Json.mem_of_lookup hname
      · exact Json.mem_of_lookup hpath
      · exact Json.mem_of_lookup hlimit
    have hlength : m.length ≤ 3 := Nat.le_of_eq hsize
    have hperm := (List.subperm_of_subset hthree hsub).perm_of_length_le hlength
    refine .object fun p hp => ?_
    have hmem := hperm.mem_iff.2 hp
    simp only [List.mem_cons, List.not_mem_nil, or_false] at hmem
    rcases hmem with rfl | rfl | rfl
    · exact .string name
    · exact .string path
    · exact hintegral
  | _ => cases hobject

/-! ### Root arrays -/

/-- A roots array that is in order but for a `maxFileBytes` that is written `-0`. -/
structure MinusZero (limits : RuntimeConfigLimits) (roots : List Json) : Prop where
  bounded : roots.length ≤ limits.filesystem.maxRoots
  entries : ∀ v ∈ roots, RootEntry v
  minusZero : ∃ v ∈ roots, v.find? "maxFileBytes" = some (.numberInteger 0)

private theorem mapM_eq_some_iff {f : Json → Option RootPolicyConfig} {l : List Json} {rs : List RootPolicyConfig} :
    l.mapM f = some rs ↔ List.Forall₂ (fun v r => f v = some r) l rs := by
  induction l generalizing rs with
  | nil => simp [eq_comm]
  | cons v l ih =>
    rw [List.mapM_cons, List.forall₂_cons_left_iff]
    cases hv : f v with
    | none => simp
    | some r =>
      cases hl : l.mapM f with
      | none =>
        have hno : ∀ rs, ¬ List.Forall₂ (fun v r => f v = some r) l rs := by
          intro rs h
          rw [← ih, hl] at h
          cases h
        simp [hno]
      | some rs' =>
        have hiff : ∀ rs, List.Forall₂ (fun v r => f v = some r) l rs ↔ rs' = rs := by
          intro rs
          rw [← ih, hl, Option.some_inj]
        simp [hiff, eq_comm]

private theorem mapM_isSome_iff {f : Json → Option RootPolicyConfig} {l : List Json} :
    (∃ rs, l.mapM f = some rs) ↔ ∀ v ∈ l, ∃ r, f v = some r := by
  induction l with
  | nil => simp
  | cons v l ih =>
    rw [List.forall_mem_cons, ← ih, List.mapM_cons]
    cases hv : f v with
    | none => simp
    | some r => cases hl : l.mapM f <;> simp

/-- Reading the roots back keeps what they configure. -/
theorem readRoots_reread {roots : List Json} (hp : ∀ v ∈ roots, Parsed v) {rs : List RootPolicyConfig}
    (h : roots.mapM readRoot = some rs) : (roots.map reread).mapM readRoot = some rs := by
  rw [mapM_eq_some_iff, List.forall₂_map_left_iff]
  rw [mapM_eq_some_iff] at h
  induction h with
  | nil => exact .nil
  | cons hr _ ih =>
    rw [List.forall_mem_cons] at hp
    exact .cons (readRoot_reread_of_readRoot hp.1 hr) (ih hp.2)

theorem exists_readRoots_reread_iff {roots : List Json} (hp : ∀ v ∈ roots, Parsed v) :
    (∃ rs, (roots.map reread).mapM readRoot = some rs) ↔ ∀ v ∈ roots, RootEntry v := by
  rw [mapM_isSome_iff, List.forall_mem_map]
  exact forall₂_congr fun v hv => exists_readRoot_reread_iff (hp v hv)

/-- Reading the roots back changes whether they are accepted only if a limit is written `-0`. -/
theorem configOfRoots_reread_iff {limits : RuntimeConfigLimits} {roots : List Json} (hp : ∀ v ∈ roots, Parsed v)
    (hne : roots ≠ []) :
    (∀ config, configOfRoots limits.filesystem roots = .ok config ↔
      configOfRoots limits.filesystem (roots.map reread) = .ok config) ↔ ¬ MinusZero limits roots := by
  have hne' : roots.map reread ≠ [] := by simpa using hne
  constructor
  · rintro h ⟨hbounded, hentries, v, hv, hminus⟩
    obtain ⟨rs, hrs⟩ := (exists_readRoots_reread_iff hp).2 hentries
    have haccepted := (h ⟨rs⟩).2 (configOfRoots_eq_ok_iff.2 ⟨hne', by rwa [List.length_map], hrs⟩)
    obtain ⟨-, -, hroots⟩ := configOfRoots_eq_ok_iff.1 haccepted
    obtain ⟨r, hr⟩ := mapM_isSome_iff.1 ⟨_, hroots⟩ v hv
    rw [((hentries v hv).readRoot_eq_none_iff).2 hminus] at hr
    cases hr
  · intro h config
    rw [configOfRoots_eq_ok_iff, configOfRoots_eq_ok_iff, List.length_map]
    constructor
    · rintro ⟨-, hbounded, hroots⟩
      exact ⟨hne', hbounded, readRoots_reread hp hroots⟩
    · rintro ⟨-, hbounded, hroots⟩
      have hentries := (exists_readRoots_reread_iff hp).1 ⟨_, hroots⟩
      have hread : ∀ v ∈ roots, ∃ r, readRoot v = some r := by
        intro v hv
        rw [← Option.ne_none_iff_exists']
        intro hnone
        exact h ⟨hbounded, hentries, v, hv, ((hentries v hv).readRoot_eq_none_iff).1 hnone⟩
      obtain ⟨rs, hrs⟩ := mapM_isSome_iff.2 hread
      have hsame := readRoots_reread hp hrs
      rw [hroots] at hsame
      exact ⟨hne, hbounded, hrs.trans hsame.symm⟩

/-! ### The two texts -/

/-- A document of version 2 with these roots and no processes. -/
def versionTwo (roots : List Json) : Json :=
  Json.ofPairs [("version", .numberUnsigned 2), ("roots", .array roots), ("processes", .array [])]

theorem versionOne_eq (roots : List Json) :
    versionOne roots = .object [(bytes "roots", .array roots), (bytes "version", .numberUnsigned 1)] := by
  have hne : bytes "roots" ≠ bytes "version" := by decide +kernel
  have hless : Json.keyLess (bytes "roots") (bytes "version") = true := by decide +kernel
  rw [versionOne, Json.ofPairs, List.foldl_cons, List.foldl_cons, List.foldl_nil, Json.emplace, Json.emplace, if_neg hne,
    if_pos hless]

private theorem size_versionTwo (roots : List Json) : (versionTwo roots).size = 3 := by
  have hne : bytes "roots" ≠ bytes "version" := by decide +kernel
  have hless : Json.keyLess (bytes "roots") (bytes "version") = true := by decide +kernel
  have hne' : bytes "processes" ≠ bytes "roots" := by decide +kernel
  have hless' : Json.keyLess (bytes "processes") (bytes "roots") = true := by decide +kernel
  rw [versionTwo, Json.ofPairs, List.foldl_cons, List.foldl_cons, List.foldl_cons, List.foldl_nil, Json.emplace,
    Json.emplace, if_neg hne, if_pos hless, Json.emplace, if_neg hne', if_pos hless']
  rfl

theorem rootsOf_versionOne (roots : List Json) : rootsOf (versionOne roots) = some roots := by
  have hsize : (versionOne roots).size = 2 := by
    rw [versionOne_eq]
    rfl
  have hversion : (versionOne roots).find? "version" = some (.numberUnsigned 1) := by simp [versionOne]
  have hroots : (versionOne roots).find? "roots" = some (.array roots) := by simp [versionOne, List.lookup_cons]
  have hobject : (versionOne roots).isObject = true := Json.isObject_ofPairs _
  rw [rootsOf, if_pos (by simp [hobject, hsize]), hversion, hroots]
  exact if_pos rfl

theorem reread_versionOne (roots : List Json) : reread (versionOne roots) = versionOne (roots.map reread) := by
  have hsorted : Json.Sorted [(bytes "roots", .array roots), (bytes "version", .numberUnsigned 1)] := by
    have hless : Json.keyLess (bytes "roots") (bytes "version") = true := by decide +kernel
    exact List.pairwise_pair.2 (Json.keyLess_iff.1 hless)
  rw [versionOne_eq, reread_object hsorted, versionOne_eq, List.map_cons, List.map_cons, List.map_nil, reread_array,
    reread_numberUnsigned]

example : (versionOne [.null]).dump.isSome = true := by decide +kernel

theorem parsed_of_versionOne {roots : List Json} (h : Parsed (versionOne roots)) : ∀ v ∈ roots, Parsed v := by
  have hfind : (versionOne roots).find? "roots" = some (.array roots) := by simp [versionOne, List.lookup_cons]
  have harray := parsed_of_find? h hfind
  cases harray with
  | array h => exact h

/-- A document without floating-point numbers in its roots has none. -/
theorem integral_versionOne {roots : List Json} (h : ∀ v ∈ roots, Integral v) : Integral (versionOne roots) := by
  rw [versionOne_eq]
  refine .object fun p hp => ?_
  simp only [List.mem_cons, List.not_mem_nil, or_false] at hp
  rcases hp with rfl | rfl
  · exact .array h
  · exact .numberUnsigned 1

section

variable {N : Nlohmann} {limits : RuntimeConfigLimits} {roots : List Json} {text : Bytes} {t : JsonText}

/-- A text that passes the checks of its bytes and tokens is what its document is. -/
theorem parseRuntimePolicyConfig_eq (hN : N.Understands t) (hspells : t.Spells text)
    (hsize : text.length ≤ limits.maxConfigBytes) (hpreflight : preflightJson N text kConfigJsonLimits = .ok) :
    parseRuntimePolicyConfig N text limits = parseDocument N text (effectiveLimits limits) t.value := by
  unfold parseRuntimePolicyConfig
  rw [if_neg (by omega), if_neg (by simp [hpreflight]), (hN text hspells).1]

/-- A text of version 1 that passes the preflight is accepted as its roots are. -/
theorem accepted_versionOne (hvalue : t.value = versionOne roots) (hN : N.Understands t) (hspells : t.Spells text)
    (hsize : text.length ≤ limits.maxConfigBytes) (hpreflight : preflightJson N text kConfigJsonLimits = .ok)
    (config : FilesystemPolicyConfig) :
    acceptedFilesystem (parseRuntimePolicyConfig N text limits) = some config ↔
      configOfRoots limits.filesystem roots = .ok config := by
  have hparse := (hN text hspells).1
  rw [hvalue] at hparse
  have hversion : versionOf (versionOne roots) = some 1 := by simp [versionOf, versionOne]
  have hcontains : (versionOne roots).contains "roots" = true := by simp [Json.contains, versionOne, List.lookup_cons]
  have hcount : (versionOne roots).size = 2 := by
    rw [versionOne_eq]
    rfl
  have hfilesystem : parseFilesystemPolicyConfig N text (effectiveLimits limits).filesystem =
      configOfRoots limits.filesystem roots :=
    parseFilesystemPolicyConfig_eq hsize hpreflight hparse (rootsOf_versionOne roots)
  rw [parseRuntimePolicyConfig_eq hN hspells hsize hpreflight, hvalue, parseDocument, hversion]
  show acceptedFilesystem (some (parseVersionOne N text (effectiveLimits limits) (versionOne roots))) = some config ↔ _
  rw [parseVersionOne, if_neg (by simp [hcount, hcontains]), hfilesystem]
  cases hconfig : configOfRoots limits.filesystem roots with
  | error e => simp [acceptedFilesystem]
  | ok filesystem => simp [acceptedFilesystem]

/-- The text that `parse_roots` writes is accepted as the roots that are read back are: it is no longer than a text of
version 1 unless it holds a floating-point number, and then it is not accepted at all. -/
theorem parseFilesystemPolicyConfig_legacy (hvalue : t.value = versionOne roots) (hN : N.Understands t)
    (hN' : N.Understands (JsonText.ofJson (versionOne roots))) (hspells : t.Spells text)
    (hsize : text.length ≤ limits.maxConfigBytes) (hpreflight : preflightJson N text kConfigJsonLimits = .ok)
    {legacy : Bytes} (hlegacy : (versionOne roots).dump = some legacy) (config : FilesystemPolicyConfig) :
    parseFilesystemPolicyConfig N legacy (effectiveLimits limits).filesystem = .ok config ↔
      configOfRoots limits.filesystem (roots.map reread) = .ok config := by
  have hparsed : Parsed (versionOne roots) := hvalue ▸ t.parsed_value
  have hreprint : t.reprint = JsonText.ofJson (versionOne roots) := congrArg JsonText.ofJson hvalue
  have htext : t.reprint.text = legacy := by
    rw [hreprint]
    exact text_ofJson hlegacy
  -- the document that is written is within the limits, as the one that was read is
  have hwithin : Within kConfigJsonLimits t.document :=
    (preflightJson_eq_ok_iff (by decide) (by decide) (hN text hspells).2).1 hpreflight
  have hread := hN' legacy (.inl (by rw [← htext, hreprint]))
  have hpreflight' : preflightJson N legacy kConfigJsonLimits = .ok := by
    refine (preflightJson_eq_ok_iff (by decide) (by decide) hread.2).2 ?_
    rw [← hreprint]
    exact reprint_within hwithin
  have hroots : rootsOf (JsonText.ofJson (versionOne roots)).value = some (roots.map reread) := by
    have hreread : (JsonText.ofJson (versionOne roots)).value = versionOne (roots.map reread) := reread_versionOne roots
    rw [hreread]
    exact rootsOf_versionOne _
  by_cases hfits : legacy.length ≤ limits.maxConfigBytes
  · rw [parseFilesystemPolicyConfig_eq hfits hpreflight' hread.1 hroots]
    exact Iff.rfl
  · refine iff_of_false (fun h => hfits (not_configTooLarge h)) fun h => hfits ?_
    -- roots that are accepted hold no floating-point number
    obtain ⟨-, -, hroots⟩ := configOfRoots_eq_ok_iff.1 h
    have hentries := (exists_readRoots_reread_iff (parsed_of_versionOne hparsed)).1 ⟨_, hroots⟩
    have hintegral : Integral t.value := by
      rw [hvalue]
      exact integral_versionOne fun v hv => (hentries v hv).integral
    have hle := length_reprint_le hwithin.2.2 hintegral
    rw [htext] at hle
    exact (hle.trans hspells.length_le).trans hsize

/-- A text of version 2 without processes is accepted as the roots that are read back are. -/
theorem accepted_versionTwo {one : JsonText} {textOne : Bytes} (hne : roots ≠ []) (hone : one.value = versionOne roots)
    (hN : N.Understands one) (hN' : N.Understands (JsonText.ofJson (versionOne roots))) (hspells : one.Spells textOne)
    (hsize : textOne.length ≤ limits.maxConfigBytes) (hpreflight : preflightJson N textOne kConfigJsonLimits = .ok)
    (hvalue : t.value = versionTwo roots) (hN₂ : N.Understands t) (hspells₂ : t.Spells text)
    (hsize₂ : text.length ≤ limits.maxConfigBytes) (hpreflight₂ : preflightJson N text kConfigJsonLimits = .ok)
    (config : FilesystemPolicyConfig) :
    acceptedFilesystem (parseRuntimePolicyConfig N text limits) = some config ↔
      configOfRoots limits.filesystem (roots.map reread) = .ok config := by
  have hversion : versionOf (versionTwo roots) = some 2 := by simp [versionOf, versionTwo]
  have hroots : (versionTwo roots).find? "roots" = some (.array roots) := by simp [versionTwo, List.lookup_cons]
  have hprocesses : (versionTwo roots).find? "processes" = some (.array []) := by simp [versionTwo, List.lookup_cons]
  have hcount : decide ((versionTwo roots).size = 3) = true := by simp [size_versionTwo]
  have hutf8 : (versionOne roots).isUtf8 = true := by
    rw [← hone]
    exact N.isUtf8_of_parse textOne _ (hN textOne hspells).1
  obtain ⟨legacy, hlegacy⟩ := Json.exists_dump hutf8
  have hlegacy_iff := parseFilesystemPolicyConfig_legacy hone hN hN' hspells hsize hpreflight hlegacy config
  rw [parseRuntimePolicyConfig_eq hN₂ hspells₂ hsize₂ hpreflight₂, hvalue, parseDocument, hversion]
  show acceptedFilesystem (parseVersionTwo N (effectiveLimits limits) (versionTwo roots)) = some config ↔ _
  rw [parseVersionTwo, hcount, hroots, hprocesses]
  show acceptedFilesystem ((parseRoots N (.array roots) (effectiveLimits limits)).map
    (withProcesses (.array []) (effectiveLimits limits))) = some config ↔ _
  have hlimit : (effectiveLimits limits).filesystem.maxRoots = limits.filesystem.maxRoots := rfl
  simp only [parseRoots, hlimit]
  by_cases hbound : limits.filesystem.maxRoots < roots.length
  · rw [if_pos hbound]
    refine iff_of_false (by simp [withProcesses, acceptedFilesystem]) fun h => ?_
    obtain ⟨-, hle, -⟩ := configOfRoots_eq_ok_iff.1 h
    rw [List.length_map] at hle
    omega
  · have hempty : ¬ roots.isEmpty = true := by simpa using hne
    rw [if_neg hbound, if_neg hempty, hlegacy, ← hlegacy_iff, Option.map_some, Option.map_some]
    cases hparsed : parseFilesystemPolicyConfig N legacy (effectiveLimits limits).filesystem with
    | error e => simp [Except.mapError, withProcesses, acceptedFilesystem]
    | ok filesystem =>
      have hconfigured : filesystem.roots ≠ [] := by
        have hiff := parseFilesystemPolicyConfig_legacy hone hN hN' hspells hsize hpreflight hlegacy filesystem
        obtain ⟨-, -, hread⟩ := configOfRoots_eq_ok_iff.1 (hiff.1 hparsed)
        intro hnil
        rw [hnil, mapM_eq_some_iff, List.forall₂_nil_right_iff, List.map_eq_nil_iff] at hread
        exact hne hread
      have hno : parseProcesses (.array []) (effectiveLimits limits) = .ok [] := rfl
      simp [Except.mapError, withProcesses, acceptedFilesystem, hno, hconfigured]

end

/-- With the same roots and no processes, both versions are accepted alike and with the same filesystem configuration,
exactly unless the roots are in order but for a limit that is written `-0`; what version 1 accepts version 2 accepts in
any case. -/
theorem versions_agree_iff (N : Nlohmann) (limits : RuntimeConfigLimits) (roots : List Json) (one two : JsonText)
    (textOne textTwo : Bytes) (hne : roots ≠ []) (hone : one.value = versionOne roots)
    (htwo : two.value = versionTwo roots) (hspellsOne : one.Spells textOne) (hspellsTwo : two.Spells textTwo)
    (hN : ∀ t ∈ [one, two, JsonText.ofJson (versionOne roots)], N.Understands t)
    (hsizeOne : textOne.length ≤ limits.maxConfigBytes) (hsizeTwo : textTwo.length ≤ limits.maxConfigBytes)
    (hpreflightOne : preflightJson N textOne kConfigJsonLimits = .ok)
    (hpreflightTwo : preflightJson N textTwo kConfigJsonLimits = .ok) :
    (acceptedFilesystem (parseRuntimePolicyConfig N textOne limits) =
        acceptedFilesystem (parseRuntimePolicyConfig N textTwo limits) ↔ ¬ MinusZero limits roots) ∧
      ∀ config, acceptedFilesystem (parseRuntimePolicyConfig N textOne limits) = some config →
        acceptedFilesystem (parseRuntimePolicyConfig N textTwo limits) = some config := by
  simp only [List.forall_mem_cons, List.not_mem_nil, false_implies, implies_true, and_true] at hN
  obtain ⟨hNone, hNtwo, hNlegacy⟩ := hN
  have hp : ∀ v ∈ roots, Parsed v := parsed_of_versionOne (hone ▸ one.parsed_value)
  have hacceptedOne := accepted_versionOne hone hNone hspellsOne hsizeOne hpreflightOne
  have hacceptedTwo := accepted_versionTwo hne hone hNone hNlegacy hspellsOne hsizeOne hpreflightOne htwo hNtwo
    hspellsTwo hsizeTwo hpreflightTwo
  constructor
  · rw [← configOfRoots_reread_iff hp hne]
    constructor
    · intro h config
      rw [← hacceptedOne, ← hacceptedTwo, h]
    · intro h
      refine Option.ext fun config => ?_
      rw [hacceptedOne, hacceptedTwo]
      exact h config
  · intro config h
    obtain ⟨-, hbounded, hroots⟩ := configOfRoots_eq_ok_iff.1 ((hacceptedOne config).1 h)
    refine (hacceptedTwo config).2 (configOfRoots_eq_ok_iff.2 ⟨?_, ?_, readRoots_reread hp hroots⟩)
    · simpa using hne
    · rwa [List.length_map]

/-! ### One root in both versions -/

def keyText (name : String) : KeyText := KeyText.ofBytes (bytes name)

/-- A root whose limit is spelled so. -/
def rootText (fileLimit : JsonText) : JsonText :=
  .object .none [(keyText "name", ofJson (Json.text "logs")), (keyText "path", ofJson (Json.text "/tmp")),
    (keyText "maxFileBytes", fileLimit)]

def textOne (fileLimit : JsonText) : JsonText :=
  .object .none [(keyText "version", .unsigned 1), (keyText "roots", .array .none [rootText fileLimit])]

def textTwo (fileLimit : JsonText) : JsonText :=
  .object .none [(keyText "version", .unsigned 2), (keyText "roots", .array .none [rootText fileLimit]),
    (keyText "processes", .array .none [])]

/-- The texts that the two versions read. -/
def knownTexts (fileLimit : JsonText) : List JsonText :=
  [textOne fileLimit, textTwo fileLimit, JsonText.ofJson (versionOne [(rootText fileLimit).value])]

private theorem isUtf8_plain : ∀ t ∈ knownTexts (.unsigned 4096), t.value.isUtf8 = true := by
  have h : (knownTexts (.unsigned 4096)).all (fun t => t.value.isUtf8) = true := by decide +kernel
  exact List.all_eq_true.1 h

private theorem isUtf8_minusZero : ∀ t ∈ knownTexts (.negative 0), t.value.isUtf8 = true := by
  have h : (knownTexts (.negative 0)).all (fun t => t.value.isUtf8) = true := by decide +kernel
  exact List.all_eq_true.1 h

def plainReader : Nlohmann := parserOf (knownTexts (.unsigned 4096)) isUtf8_plain

def minusZeroReader : Nlohmann := parserOf (knownTexts (.negative 0)) isUtf8_minusZero

theorem versions_agree_plain :
    (acceptedFilesystem (parseRuntimePolicyConfig plainReader (textOne (.unsigned 4096)).text {}) =
        acceptedFilesystem (parseRuntimePolicyConfig plainReader (textTwo (.unsigned 4096)).text {}) ↔
      ¬ MinusZero {} [(rootText (.unsigned 4096)).value]) ∧
    ∀ config, acceptedFilesystem (parseRuntimePolicyConfig plainReader (textOne (.unsigned 4096)).text {}) = some config →
      acceptedFilesystem (parseRuntimePolicyConfig plainReader (textTwo (.unsigned 4096)).text {}) = some config :=
  versions_agree_iff plainReader {} [(rootText (.unsigned 4096)).value] (textOne (.unsigned 4096))
    (textTwo (.unsigned 4096)) _ _ (List.cons_ne_nil _ _) rfl rfl (.inl rfl) (.inl rfl)
    (parserOf_understands isUtf8_plain (by decide +kernel)) (by decide +kernel) (by decide +kernel) (by decide +kernel)
    (by decide +kernel)

/-- Version 1 refuses the limit `-0` and version 2 accepts it as 0. -/
theorem versions_differ_minusZero :
    (textOne (.negative 0)).value = versionOne [(rootText (.negative 0)).value] ∧
      (textTwo (.negative 0)).value = versionTwo [(rootText (.negative 0)).value] ∧
      (∀ t ∈ knownTexts (.negative 0), minusZeroReader.Understands t) ∧
      preflightJson minusZeroReader (textOne (.negative 0)).text kConfigJsonLimits = .ok ∧
      preflightJson minusZeroReader (textTwo (.negative 0)).text kConfigJsonLimits = .ok ∧
      (textOne (.negative 0)).text.length ≤ 64 * 1024 ∧ (textTwo (.negative 0)).text.length ≤ 64 * 1024 ∧
      acceptedFilesystem (parseRuntimePolicyConfig minusZeroReader (textOne (.negative 0)).text {}) = none ∧
      acceptedFilesystem (parseRuntimePolicyConfig minusZeroReader (textTwo (.negative 0)).text {}) =
        some ⟨[⟨bytes "logs", bytes "/tmp", 0⟩]⟩ :=
  ⟨rfl, rfl, parserOf_understands isUtf8_minusZero (by decide +kernel), by decide +kernel, by decide +kernel,
    by decide +kernel, by decide +kernel, by decide +kernel, by decide +kernel⟩

end RuntimeConfig

end NativeMcp
