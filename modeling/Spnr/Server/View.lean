import Spnr.Server.Runs

/-! The in-memory view as a fold of the statements. `load` after a statement is
the view after that statement, so a prefix of a request's statements that became
durable is reopened as exactly that prefix applied to the view. -/
namespace Spnr.Server

open RustStd

variable (C : Crates)

def Loaded.exec (s : Loaded C.VerifyingKey) : Stmt → Loaded C.VerifyingKey
  | .kvSet k v => { s with
      clicks := if k = "clicks" then v else s.clicks
      accepted := if k = "accepted" then v else s.accepted
      rejected := if k = "rejected" then v else s.rejected }
  | .upsertDevice id row => { s with
      devices := match decodePubkey C row.pubkeyHex with
        | some pubkey => s.devices.insert id ⟨pubkey, row.accountId, row.chainHead, row.ctrHead⟩
        | none => s.devices.erase id }
  | .updateDeviceHead id chainHead ctrHead =>
    match s.devices.lookup id with
    | some dev => { s with devices := s.devices.insert id { dev with chainHead, ctrHead } }
    | none => s
  | .ensureBalance a => if a ∈ s.balances then s else { s with balances := s.balances.insert a 0 }
  | .ensureImpressions a =>
    if a ∈ s.impressions then s else { s with impressions := s.impressions.insert a 0 }
  | .setBalance a micros => { s with balances := s.balances.insert a micros }
  | .setImpressions a n => { s with impressions := s.impressions.insert a n }
  | .insertLedger e => { s with ledger := s.ledger ++ [e] }
  | .insertSeenEvent id => { s with seenEventIds := insert id s.seenEventIds }
  | .insertRedemption r => { s with
      redemptions := s.redemptions ++ [r]
      nextRedemptionId := s.nextRedemptionId + 1 }
  | .insertCreative _ _ _ => s
  | .deleteCreative _ => s
  | .upsertDeviceMeta _ _ => s

def Loaded.execAll (s : Loaded C.VerifyingKey) (ws : List Stmt) : Loaded C.VerifyingKey :=
  ws.foldl (Loaded.exec C) s

@[simp] theorem Loaded.execAll_nil (s : Loaded C.VerifyingKey) : s.execAll C [] = s := rfl

@[simp] theorem Loaded.execAll_cons (s : Loaded C.VerifyingKey) (w : Stmt) (ws : List Stmt) :
    s.execAll C (w :: ws) = (s.exec C w).execAll C ws := rfl

@[simp] theorem Loaded.execAll_append (s : Loaded C.VerifyingKey) (ws ws' : List Stmt) :
    s.execAll C (ws ++ ws') = (s.execAll C ws).execAll C ws' := List.foldl_append

def redemptionIds (m : Nat) : List String := (List.range m).map fun i => redemptionId (i + 1)

theorem redemptionIds_succ (m : Nat) :
    redemptionIds (m + 1) = redemptionIds m ++ [redemptionId (m + 1)] := by
  simp [redemptionIds, List.range_succ]

def Numbered (rows : List Redemption) : Prop := rows.map Redemption.id = redemptionIds rows.length

theorem Numbered.append {rows : List Redemption} (numbered : Numbered rows) {r : Redemption}
    (next : r.id = redemptionId (rows.length + 1)) : Numbered (rows ++ [r]) := by
  unfold Numbered at *
  rw [List.map_append, numbered, List.length_append, List.length_singleton, redemptionIds_succ]
  simp [next]

theorem Numbered.not_mem {rows : List Redemption} (numbered : Numbered rows) :
    redemptionId (rows.length + 1) ∉ rows.map Redemption.id := by
  rw [numbered]
  intro mem
  obtain ⟨i, hi, same⟩ := List.mem_map.mp mem
  have := redemptionId_injective same
  have := List.mem_range.mp hi
  omega

theorem Numbered.key {rows : List Redemption} (numbered : Numbered rows) (i : Nat)
    (hi : i < rows.length) : redemptionNumber (rows[i]).id = some (i + 1) := by
  have h : (rows.map Redemption.id)[i]? = (redemptionIds rows.length)[i]? := by rw [numbered]
  rw [List.getElem?_map, List.getElem?_eq_getElem hi, redemptionIds, List.getElem?_map,
    List.getElem?_range hi] at h
  simp only [Option.map_some, Option.some.injEq] at h
  simp [h]

theorem Numbered.sorted {rows : List Redemption} (numbered : Numbered rows) :
    rows.mergeSort (fun r r' => redemptionKey r ≤ redemptionKey r') = rows := by
  apply List.mergeSort_of_pairwise
  rw [List.pairwise_iff_getElem]
  intro i j hi hj before
  simp only [redemptionKey, numbered.key i hi, numbered.key j hj, Option.getD_some,
    decide_eq_true_eq]
  omega

theorem Numbered.max {rows : List Redemption} (numbered : Numbered rows) :
    maxRedemptionId rows = rows.length := by
  induction rows using List.reverseRecOn with
  | nil => rfl
  | append_singleton rows r ih =>
    have ids : rows.map Redemption.id ++ [r.id] = redemptionIds rows.length ++
        [redemptionId (rows.length + 1)] := by
      simpa [Numbered, redemptionIds_succ] using numbered
    obtain ⟨init, last⟩ := List.append_inj' ids rfl
    have r_id : r.id = redemptionId (rows.length + 1) := by simpa using last
    have before : maxRedemptionId rows = rows.length := ih init
    simp only [maxRedemptionId] at before
    simp [maxRedemptionId, before, r_id]

/-- The redemption rows a list of statements adds continue the numbering after `m`. -/
def Continues : Nat → List Stmt → Prop
  | _, [] => True
  | m, .insertRedemption r :: ws => r.id = redemptionId (m + 1) ∧ Continues (m + 1) ws
  | m, _ :: ws => Continues m ws

theorem Continues.take {ws : List Stmt} {m : Nat} (h : Continues m ws) (k : Nat) :
    Continues m (ws.take k) := by
  induction ws generalizing m k with
  | nil => simpa using h
  | cons w ws ih =>
    cases k with
    | zero => trivial
    | succ k =>
      cases w <;> first | exact ⟨h.1, ih h.2 k⟩ | exact ih h k

theorem load_kvSet (db : Database) (k : String) (v : Nat) :
    load C (db.exec (.kvSet k v)) = (load C db).exec C (.kvSet k v) := by
  simp only [load, Database.exec, Loaded.exec, kvGet, HashMap.lookup_insert,
    Loaded.mk.injEq, true_and, and_true]
  refine ⟨?_, ?_, ?_⟩
  all_goals
    split
    · next h => subst h; simp
    · next h => simp [Ne.symm h]

theorem load_updateDeviceHead (db : Database) (id chainHead : String) (ctrHead : Option Nat) :
    load C (db.exec (.updateDeviceHead id chainHead ctrHead)) =
      (load C db).exec C (.updateDeviceHead id chainHead ctrHead) := by
  cases row : db.devices.lookup id with
  | none => simp [Database.exec, Loaded.exec, load, row]
  | some row' =>
    cases key : decodePubkey C row'.pubkeyHex with
    | some pubkey => simp [Database.exec, Loaded.exec, load, row, key, HashMap.filterMap_insert]
    | none =>
      simp only [Database.exec, Loaded.exec, load, row, HashMap.lookup_filterMap,
        Option.bind_some, key, Option.map_none, HashMap.filterMap_insert, Loaded.mk.injEq, and_true]
      apply Finmap.ext_lookup
      intro x
      by_cases h : x = id
      · subst h; simp [row, key]
      · simp [h]

theorem load_insertRedemption (db : Database) (r : Redemption) (numbered : Numbered db.redemptions)
    (next : r.id = redemptionId (db.redemptions.length + 1)) :
    Numbered (db.exec (.insertRedemption r)).redemptions ∧
      load C (db.exec (.insertRedemption r)) = (load C db).exec C (.insertRedemption r) := by
  have fresh : r.id ∉ db.redemptions.map Redemption.id := next ▸ numbered.not_mem
  have grown := numbered.append next
  simp only [Database.exec, if_neg fresh]
  refine ⟨grown, ?_⟩
  simp [load, Loaded.exec, grown.sorted, grown.max, numbered.sorted, numbered.max]

theorem load_exec (db : Database) (w : Stmt) (numbered : Numbered db.redemptions)
    (next : Continues db.redemptions.length [w]) :
    Numbered (db.exec w).redemptions ∧ load C (db.exec w) = (load C db).exec C w := by
  cases w with
  | kvSet k v => exact ⟨numbered, load_kvSet C db k v⟩
  | upsertDevice id row =>
    refine ⟨numbered, ?_⟩
    cases key : decodePubkey C row.pubkeyHex <;>
      simp [Database.exec, Loaded.exec, load, HashMap.filterMap_insert, key]
  | updateDeviceHead id head ctr =>
    refine ⟨?_, load_updateDeviceHead C db id head ctr⟩
    cases row : db.devices.lookup id <;> simpa [Database.exec, row] using numbered
  | ensureBalance a => by_cases h : a ∈ db.balances <;> simp [Database.exec, Loaded.exec, load,
      h, numbered]
  | ensureImpressions a =>
    by_cases h : a ∈ db.impressions <;> simp [Database.exec, Loaded.exec, load, h, numbered]
  | setBalance a micros => exact ⟨numbered, rfl⟩
  | setImpressions a n => exact ⟨numbered, rfl⟩
  | insertLedger e => exact ⟨numbered, rfl⟩
  | insertSeenEvent id => exact ⟨numbered, rfl⟩
  | insertRedemption r => exact load_insertRedemption C db r numbered next.1
  | insertCreative c active now => exact ⟨numbered, rfl⟩
  | deleteCreative id => exact ⟨numbered, rfl⟩
  | upsertDeviceMeta id row =>
    cases old : db.deviceMeta.lookup id <;> simp [Database.exec, Loaded.exec, load, old, numbered]

theorem exec_redemptions_length (db : Database) (w : Stmt) (numbered : Numbered db.redemptions)
    {ws : List Stmt} (next : Continues db.redemptions.length (w :: ws)) :
    Continues (db.exec w).redemptions.length ws := by
  cases w with
  | insertRedemption r =>
    have fresh : r.id ∉ db.redemptions.map Redemption.id := next.1 ▸ numbered.not_mem
    simpa [Database.exec, fresh] using next.2
  | updateDeviceHead id head ctr =>
    cases row : db.devices.lookup id <;> simpa [Database.exec, row, Continues] using next
  | ensureBalance a =>
    by_cases h : a ∈ db.balances <;> simpa [Database.exec, h, Continues] using next
  | ensureImpressions a =>
    by_cases h : a ∈ db.impressions <;> simpa [Database.exec, h, Continues] using next
  | upsertDeviceMeta id row =>
    cases old : db.deviceMeta.lookup id <;> simpa [Database.exec, old, Continues] using next
  | _ => exact next

theorem load_execAll (ws : List Stmt) (db : Database) (numbered : Numbered db.redemptions)
    (next : Continues db.redemptions.length ws) :
    Numbered (db.execAll ws).redemptions ∧ load C (db.execAll ws) = (load C db).execAll C ws := by
  induction ws generalizing db with
  | nil => exact ⟨numbered, rfl⟩
  | cons w ws ih =>
    have head : Continues db.redemptions.length [w] := by
      cases w <;> first | exact ⟨next.1, trivial⟩ | trivial
    obtain ⟨numbered', view⟩ := load_exec C db w numbered head
    obtain ⟨tail, viewTail⟩ := ih (db.exec w) numbered' (exec_redemptions_length db w numbered next)
    exact ⟨tail, by simpa [view] using viewTail⟩

end Spnr.Server
