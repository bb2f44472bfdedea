/-
# Devices

`kernel/rx_device.c`. The device table has `nDev` entries and the descriptor
table `nDesc` (`CONFIG_MAX_DEVICE_DESC`), for any numbers. A descriptor holds
the index of its device, `none` for NULL; the table is a function of the index,
so that an index outside finds whatever lies there, and the calls return the
indices they have used. Drivers are of any type: an operation of `struct
device_ops` is a function or NULL, and what the function returns is an argument
of the call that calls it.

`rx_dev_open` claims a descriptor before it calls the driver and gives it back
if the driver refuses; the counter of a device is the number of its descriptors
in every run (`countsOK_of_run`). The five calls on a descriptor neither check
it against the table nor the operation against NULL (`callOK_iff`).

Key definitions: `DevTable.rxDevOpen`, `DevTable.rxDevClose`,
`DevTable.rxRegisterDriver`, `DevTable.CountsOK`, `DevTable.CallOK`.
-/
import Rosx.Kernel
import Rosx.Lib.Run

namespace Rosx

open Linked

variable {F : Type*}

/-- `ENXIO`. -/
def enxio : ℤ := 6

/-- `ENOMEM`. -/
def enomem : ℤ := 12

/-- `ENODEV`. -/
def enodev : ℤ := 19

/-- `struct device_ops`. -/
structure DeviceOps (F : Type*) where
  openFn : Option F := none
  release : Option F := none
  read : Option F := none
  write : Option F := none
  ioctl : Option F := none
  poll : Option F := none

/-- `struct device`, without `private_data`. -/
structure Device (F : Type*) where
  name : String
  deviceOps : Option (DeviceOps F) := none
  deviceOpenCount : ℤ := 0

/-- What an application asks of a descriptor; buffers are their addresses. -/
inductive DevRequest where
  | close
  | read (dest size : ℕ)
  | write (src size : ℕ)
  | ioctl (cmd : Word) (arg : ℕ)
  | poll (events : Word) (timeout : ℤ)
  deriving DecidableEq

/-- The operation that serves a request. -/
def DeviceOps.op (ops : DeviceOps F) : DevRequest → Option F
  | .close => ops.release
  | .read _ _ => ops.read
  | .write _ _ => ops.write
  | .ioctl _ _ => ops.ioctl
  | .poll _ _ => ops.poll

/-- The call of a driver on a descriptor, `none` for its `open`. -/
structure DriverCall (F : Type*) where
  fn : F
  desc : ℤ
  request : Option DevRequest

/-- `device_table` and `desc`. -/
structure DevTable (F : Type*) where
  dev : ℕ → Device F
  desc : ℤ → Option ℕ := fun _ => none

/-- What a call returns, with the calls of drivers and the indices of `desc`
it has made. -/
structure DevRet (F : Type*) where
  ret : ℤ
  t : DevTable F
  calls : List (DriverCall F) := []
  indexed : List ℤ := []

namespace DevTable

/-- `desc[d].dev = v`. -/
def setDesc (t : DevTable F) (d : ℤ) (v : Option ℕ) : DevTable F := { t with desc := Function.update t.desc d v }

/-- `device_open_count` of device `i` changes by `delta`. -/
def addCount (t : DevTable F) (i : ℕ) (delta : ℤ) : DevTable F :=
  { t with dev := Function.update t.dev i { t.dev i with deviceOpenCount := (t.dev i).deviceOpenCount + delta } }

/-- The device of a name: the first one in the table. -/
def findDevice (nDev : ℕ) (t : DevTable F) (name : String) : Option ℕ :=
  (List.range nDev).find? fun i => (t.dev i).name = name

/-- The first free descriptor. -/
def freeDesc (nDesc : ℕ) (t : DevTable F) : Option ℕ := (List.range nDesc).find? fun d : ℕ => (t.desc d).isNone

/-- `rx_register_driver`. -/
def rxRegisterDriver (nDev : ℕ) (t : DevTable F) (name : String) (ops : Option (DeviceOps F)) : ℤ × DevTable F :=
  match t.findDevice nDev name with
  | none => (-enodev, t)
  | some i =>
    if (t.dev i).deviceOps.isSome then (enodev, t)
    else (0, { t with dev := Function.update t.dev i { t.dev i with deviceOps := ops } })

/-- `rx_dev_open`, where the driver's `open` returns `code` if it is called. -/
def rxDevOpen (nDev nDesc : ℕ) (t : DevTable F) (filename : String) (code : ℤ) : Res (DevRet F) :=
  match t.findDevice nDev filename with
  | none => .ok { ret := -enodev, t := t }
  | some i =>
    match (t.dev i).deviceOps with
    | none => .ok { ret := -enxio, t := t }
    | some ops =>
      match t.freeDesc nDesc with
      | none => .ok { ret := -enomem, t := t }
      | some d =>
        let t := t.setDesc d (some i)
        match ops.openFn with
        | none => .error .null
        | some f =>
          if code = 0 then .ok { ret := d, t := t.addCount i 1, calls := [⟨f, d, none⟩], indexed := [(d : ℤ)] }
          else .ok { ret := code, t := t.setDesc d none, calls := [⟨f, d, none⟩], indexed := [(d : ℤ)] }

/-- A request that is passed to the driver of the descriptor; the driver
returns `code`. -/
def passRequest (t : DevTable F) (d : ℤ) (req : DevRequest) (code : ℤ) : Res (DevRet F) :=
  match t.desc d with
  | none => .ok { ret := -enodev, t := t, indexed := [d] }
  | some i =>
    match (t.dev i).deviceOps.bind fun ops => ops.op req with
    | none => .error .null
    | some f => .ok { ret := code, t := t, calls := [⟨f, d, some req⟩], indexed := [d] }

/-- `rx_dev_close`. -/
def rxDevClose (t : DevTable F) (d : ℤ) (code : ℤ) : Res (DevRet F) :=
  match t.desc d with
  | none => .ok { ret := -enodev, t := t, indexed := [d] }
  | some i =>
    match (t.dev i).deviceOps.bind fun ops => ops.op .close with
    | none => .error .null
    | some f =>
      if code = 0 then
        .ok { ret := 0, t := (t.addCount i (-1)).setDesc d none, calls := [⟨f, d, some .close⟩], indexed := [d] }
      else .ok { ret := code, t := t, calls := [⟨f, d, some .close⟩], indexed := [d] }

/-- `rx_dev_read`. -/
def rxDevRead (t : DevTable F) (d : ℤ) (dest size : ℕ) (code : ℤ) : Res (DevRet F) :=
  t.passRequest d (.read dest size) code

/-- `rx_dev_write`. -/
def rxDevWrite (t : DevTable F) (d : ℤ) (src size : ℕ) (code : ℤ) : Res (DevRet F) :=
  t.passRequest d (.write src size) code

/-- `rx_dev_ioctl`. -/
def rxDevIoctl (t : DevTable F) (d : ℤ) (cmd : Word) (arg : ℕ) (code : ℤ) : Res (DevRet F) :=
  t.passRequest d (.ioctl cmd arg) code

/-- `rx_dev_poll`. -/
def rxDevPoll (t : DevTable F) (d : ℤ) (events : Word) (timeout : ℤ) (code : ℤ) : Res (DevRet F) :=
  t.passRequest d (.poll events timeout) code

/-- The call of an application. -/
def request (t : DevTable F) (d : ℤ) (code : ℤ) : DevRequest → Res (DevRet F)
  | .close => t.rxDevClose d code
  | .read dest size => t.rxDevRead d dest size code
  | .write src size => t.rxDevWrite d src size code
  | .ioctl cmd arg => t.rxDevIoctl d cmd arg code
  | .poll events timeout => t.rxDevPoll d events timeout code

end DevTable

/-! ### Runs -/

/-- A step of a run, with what the driver returns if it is called. -/
inductive DevCall (F : Type*) where
  | register (name : String) (ops : Option (DeviceOps F))
  | openDev (filename : String) (code : ℤ)
  | request (d : ℤ) (req : DevRequest) (code : ℤ)

namespace DevTable

def exec (nDev nDesc : ℕ) (t : DevTable F) : DevCall F → Res (ℤ × DevTable F)
  | .register name ops => .ok (t.rxRegisterDriver nDev name ops)
  | .openDev filename code => (t.rxDevOpen nDev nDesc filename code).map fun x => (x.ret, x.t)
  | .request d req code => (t.request d code req).map fun x => (x.ret, x.t)

/-- The call returns what the label says. -/
def Step (nDev nDesc : ℕ) (t : DevTable F) (c : DevCall F × ℤ) (t' : DevTable F) : Prop :=
  t.exec nDev nDesc c.1 = .ok (c.2, t')

/-- Nothing is open. -/
structure Init (nDesc : ℕ) (t : DevTable F) : Prop where
  desc : ∀ d : ℕ, d < nDesc → t.desc d = none
  count : ∀ i, (t.dev i).deviceOpenCount = 0

/-- The index of an entry of `desc`. -/
def InTable (nDesc : ℕ) (d : ℤ) : Prop := 0 ≤ d ∧ d < nDesc

instance (nDesc : ℕ) (d : ℤ) : Decidable (InTable nDesc d) := inferInstanceAs (Decidable (_ ∧ _))

/-- The descriptors of the table that are open for device `i`. -/
def openDescs (nDesc : ℕ) (t : DevTable F) (i : ℕ) : List ℕ := (List.range nDesc).filter fun d : ℕ => t.desc d = some i

/-- The counter of each device is the number of its descriptors. -/
def CountsOK (nDesc : ℕ) (t : DevTable F) : Prop := ∀ i, (t.dev i).deviceOpenCount = (t.openDescs nDesc i).length

/-- The descriptors and the counters are the same. -/
def SameDescs (t t' : DevTable F) : Prop :=
  t'.desc = t.desc ∧ ∀ i, (t'.dev i).deviceOpenCount = (t.dev i).deviceOpenCount

/-- A call of `rx_dev_open` returns a descriptor that was free, and that is
none of the open ones, or fails with an error of its own or the driver's, which
leaves the descriptors and the counters. -/
def OpenOK (nDesc : ℕ) (t : DevTable F) (code r : ℤ) (t' : DevTable F) : Prop :=
  (∃ d : ℕ, r = d ∧ d < nDesc ∧ t.desc d = none ∧ (∀ e, t.desc e ≠ none → e ≠ d) ∧ t'.desc d ≠ none ∧
    ∀ e ≠ (d : ℤ), t'.desc e = t.desc e) ∨
  (r < 0 ∨ r = code) ∧ r ≠ 0 ∧ SameDescs t t'

/-- A call of `rx_dev_close` returns 0 and frees the descriptor, or fails and
leaves the descriptors and the counters. -/
def CloseOK (t : DevTable F) (d r : ℤ) (t' : DevTable F) : Prop :=
  r = 0 ∧ t.desc d ≠ none ∧ t'.desc = Function.update t.desc d none ∨ r ≠ 0 ∧ SameDescs t t'

/-- What a call has to do. -/
def Right (nDesc : ℕ) (t : DevTable F) (c : DevCall F × ℤ) (t' : DevTable F) : Prop :=
  match c.1 with
  | .openDev _ code => OpenOK nDesc t code c.2 t'
  | .request d .close _ => CloseOK t d c.2 t'
  | _ => SameDescs t t'

/-- A descriptor that is closed, or asked for anything else, is one of the table. -/
def DescInTable (nDesc : ℕ) (_ : DevTable F) (c : DevCall F × ℤ) : Prop :=
  match c.1 with
  | .request d _ _ => InTable nDesc d
  | _ => True

instance (nDesc : ℕ) (t : DevTable F) : ∀ c : DevCall F × ℤ, Decidable (DescInTable nDesc t c)
  | (.request d _ _, _) => inferInstanceAs (Decidable (InTable nDesc d))
  | (.register _ _, _) | (.openDev _ _, _) => inferInstanceAs (Decidable True)

/-- The descriptor is open. -/
def IsOpen (nDesc : ℕ) (t : DevTable F) (d : ℤ) : Prop := InTable nDesc d ∧ t.desc d ≠ none

/-- On a descriptor that is not open a call returns `-ENODEV`, uses no index
outside the table, calls no driver and changes nothing; on an open one it does
not call NULL. -/
structure CallOK (nDesc : ℕ) (t : DevTable F) (d : ℤ) (req : DevRequest) : Prop where
  closed : ¬ IsOpen nDesc t d → ∀ code, ∃ x, t.request d code req = .ok x ∧ x.ret = -enodev ∧
    (∀ i ∈ x.indexed, InTable nDesc i) ∧ x.calls = [] ∧ x.t = t
  opened : IsOpen nDesc t d → ∀ code, t.request d code req ≠ .error .null

/-- The descriptor is one of the table, and its driver, if it is open, has the
operation. -/
def Served (nDesc : ℕ) (t : DevTable F) (d : ℤ) (req : DevRequest) : Prop :=
  InTable nDesc d ∧ ∀ i ∈ t.desc d, ∀ ops ∈ (t.dev i).deviceOps, (ops.op req).isSome

/-! ### What the calls do -/

section Calls

variable {nDev nDesc : ℕ} {t t' : DevTable F} {name : String} {d : ℤ} {code : ℤ} {x : DevRet F}

theorem SameDescs.refl (t : DevTable F) : SameDescs t t := ⟨rfl, fun _ => rfl⟩

/-- A driver is set where there is none. -/
theorem rxRegisterDriver_spec (nDev : ℕ) (t : DevTable F) (name : String) (ops : Option (DeviceOps F)) :
    SameDescs t (t.rxRegisterDriver nDev name ops).2 ∧
      ∀ i, (t.dev i).deviceOps ≠ none → ((t.rxRegisterDriver nDev name ops).2.dev i).deviceOps = (t.dev i).deviceOps := by
  unfold rxRegisterDriver
  split
  · exact ⟨.refl t, fun _ _ => rfl⟩
  · rename_i i hi
    split_ifs with hops
    · exact ⟨.refl t, fun _ _ => rfl⟩
    · refine ⟨⟨rfl, fun j => ?_⟩, fun j hj => ?_⟩
      · by_cases hji : j = i
        · subst hji
          simp
        · simp [hji]
      · have hji : j ≠ i := by
          rintro rfl
          exact hops (Option.isSome_iff_ne_none.mpr hj)
        simp [hji]

theorem freeDesc_spec {d : ℕ} (h : t.freeDesc nDesc = some d) : d < nDesc ∧ t.desc d = none := by
  have hnone : (t.desc d).isNone = true := List.find?_some (p := fun d : ℕ => (t.desc d).isNone) h
  exact ⟨List.mem_range.mp (List.mem_of_find?_eq_some h), Option.isNone_iff_eq_none.mp hnone⟩

/-- A descriptor that is claimed and given back. -/
theorem setDesc_none {v : Option ℕ} (h : t.desc d = none) : (t.setDesc d v).setDesc d none = t := by
  unfold setDesc
  rw [Function.update_idem, ← h, Function.update_eq_self]

/-- `rx_dev_open` takes a free descriptor and counts it, or changes nothing. -/
theorem rxDevOpen_spec (h : t.rxDevOpen nDev nDesc name code = .ok x) :
    (∃ (d : ℕ) (i : ℕ), x.ret = d ∧ d < nDesc ∧ t.desc d = none ∧ (t.dev i).deviceOps ≠ none ∧
      x.t = (t.setDesc d (some i)).addCount i 1) ∨
    (x.ret < 0 ∨ x.ret = code) ∧ x.ret ≠ 0 ∧ x.t = t := by
  unfold rxDevOpen at h
  split at h
  · obtain rfl := Except.ok.inj h
    have hneg : -enodev < 0 := by decide
    exact Or.inr ⟨Or.inl hneg, hneg.ne, rfl⟩
  · split at h
    · obtain rfl := Except.ok.inj h
      have hneg : -enxio < 0 := by decide
      exact Or.inr ⟨Or.inl hneg, hneg.ne, rfl⟩
    · rename_i i _ _ ops hops
      split at h
      · obtain rfl := Except.ok.inj h
        have hneg : -enomem < 0 := by decide
        exact Or.inr ⟨Or.inl hneg, hneg.ne, rfl⟩
      · rename_i d hd
        obtain ⟨hlt, hfree⟩ := freeDesc_spec hd
        dsimp only at h
        split at h
        · cases h
        · split_ifs at h with hcode
          · obtain rfl := Except.ok.inj h
            exact Or.inl ⟨d, i, rfl, hlt, hfree, by simp [hops], rfl⟩
          · obtain rfl := Except.ok.inj h
            exact Or.inr ⟨Or.inr rfl, hcode, setDesc_none hfree⟩

/-- `rx_dev_close` frees the descriptor and takes it off the count, or changes
nothing. -/
theorem rxDevClose_spec (h : t.rxDevClose d code = .ok x) :
    (x.ret = 0 ∧ ∃ i, t.desc d = some i ∧ x.t = (t.addCount i (-1)).setDesc d none) ∨ x.ret ≠ 0 ∧ x.t = t := by
  unfold rxDevClose at h
  split at h
  · obtain rfl := Except.ok.inj h
    have hneg : -enodev ≠ 0 := by decide
    exact Or.inr ⟨hneg, rfl⟩
  · rename_i i hi
    split at h
    · cases h
    · split_ifs at h with hcode
      · obtain rfl := Except.ok.inj h
        exact Or.inl ⟨rfl, i, hi, rfl⟩
      · obtain rfl := Except.ok.inj h
        exact Or.inr ⟨hcode, rfl⟩

theorem passRequest_t {req : DevRequest} (h : t.passRequest d req code = .ok x) : x.t = t := by
  unfold passRequest at h
  split at h
  · obtain rfl := Except.ok.inj h
    rfl
  · split at h
    · cases h
    · obtain rfl := Except.ok.inj h
      rfl

/-- All requests but `rx_dev_close` leave the tables. -/
theorem request_t {req : DevRequest} (hreq : req ≠ .close) (h : t.request d code req = .ok x) : x.t = t := by
  cases req with
  | close => exact absurd rfl hreq
  | read dest size => exact passRequest_t h
  | write src size => exact passRequest_t h
  | ioctl cmd arg => exact passRequest_t h
  | poll events timeout => exact passRequest_t h

/-! ### The counters -/

/-- What is kept of a list by two tests that differ in one element. -/
theorem length_filter_of_eq {l : List ℕ} (hl : l.Nodup) {d : ℕ} (hd : d ∈ l) {p q : ℕ → Bool}
    (h : ∀ e ≠ d, p e = q e) : (l.filter p).length + (q d).toNat = (l.filter q).length + (p d).toNat := by
  have hrest : (l.erase d).filter p = (l.erase d).filter q := by
    apply List.filter_congr
    intro e he
    exact h e (hl.mem_erase_iff.mp he).1
  have hlen : ∀ f : ℕ → Bool, (l.filter f).length = (f d).toNat + ((l.erase d).filter f).length := by
    intro f
    rw [((List.perm_cons_erase hd).filter f).length_eq, List.filter_cons]
    cases f d with
    | false => simp
    | true =>
      simp
      omega
  rw [hlen p, hlen q, hrest]
  omega

theorem openDescs_setDesc {d : ℕ} (hd : d < nDesc) (v : Option ℕ) (i : ℕ) :
    ((t.setDesc d v).openDescs nDesc i).length + (decide (t.desc d = some i)).toNat =
      (t.openDescs nDesc i).length + (decide (v = some i)).toNat := by
  have h := length_filter_of_eq (List.nodup_range (n := nDesc)) (List.mem_range.mpr hd)
    (p := fun e : ℕ => decide ((t.setDesc d v).desc e = some i)) (q := fun e : ℕ => decide (t.desc e = some i))
    fun e he => by
      have hne : (e : ℤ) ≠ d := fun hc => he (by omega)
      simp [setDesc, hne]
  simpa [openDescs, setDesc] using h

theorem addCount_count (t : DevTable F) (i j : ℕ) (delta : ℤ) :
    ((t.addCount i delta).dev j).deviceOpenCount = (t.dev j).deviceOpenCount + if i = j then delta else 0 := by
  by_cases hji : j = i
  · subst hji
    simp [addCount]
  · simp [addCount, hji, Ne.symm hji]

theorem addCount_ops (t : DevTable F) (i j : ℕ) (delta : ℤ) :
    ((t.addCount i delta).dev j).deviceOps = (t.dev j).deviceOps := by
  by_cases hji : j = i
  · subst hji
    simp [addCount]
  · simp [addCount, hji]

theorem CountsOK.congr (h : CountsOK nDesc t) (hs : SameDescs t t') : CountsOK nDesc t' := by
  intro i
  rw [hs.2 i, h i, openDescs, openDescs, hs.1]

/-- A descriptor changes its device, and the counters follow. -/
theorem CountsOK.setDesc (h : CountsOK nDesc t) {d : ℕ} (hd : d < nDesc) {v : Option ℕ}
    (hdesc : t'.desc = (t.setDesc d v).desc)
    (hcount : ∀ i, (t'.dev i).deviceOpenCount + (decide (t.desc d = some i)).toNat =
      (t.dev i).deviceOpenCount + (decide (v = some i)).toNat) : CountsOK nDesc t' := by
  intro i
  have hlen := openDescs_setDesc (t := t) hd v i
  have ho : t'.openDescs nDesc i = (t.setDesc d v).openDescs nDesc i := by rw [openDescs, openDescs, hdesc]
  have hold := h i
  have hnew := hcount i
  rw [ho]
  omega

/-- What each call has to do it does, in any state. -/
theorem Step.right {c : DevCall F × ℤ} (hst : Step nDev nDesc t c t') : Right nDesc t c t' := by
  obtain ⟨c, r⟩ := c
  cases c with
  | register name ops =>
    obtain ⟨-, rfl⟩ := Prod.mk.inj (Except.ok.inj hst)
    exact (rxRegisterDriver_spec nDev t name ops).1
  | openDev name code =>
    obtain ⟨x, hx, he⟩ := map_eq_ok.mp hst
    obtain ⟨rfl, rfl⟩ := Prod.mk.inj he
    rcases rxDevOpen_spec hx with ⟨d, i, hret, hlt, hfree, -, ht⟩ | ⟨hret, hne, ht⟩
    · refine Or.inl ⟨d, hret, hlt, hfree, fun e he hc => he (hc ▸ hfree), ?_, fun e he => ?_⟩
      · simp [ht, addCount, setDesc]
      · simp [ht, addCount, setDesc, he]
    · exact Or.inr ⟨hret, hne, by rw [ht]; exact .refl t⟩
  | request d req code =>
    obtain ⟨x, hx, he⟩ := map_eq_ok.mp hst
    obtain ⟨rfl, rfl⟩ := Prod.mk.inj he
    by_cases hreq : req = .close
    · subst hreq
      rcases rxDevClose_spec hx with ⟨hret, i, hdi, ht⟩ | ⟨hret, ht⟩
      · refine Or.inl ⟨hret, by simp [hdi], ?_⟩
        rw [ht]
        rfl
      · exact Or.inr ⟨hret, by rw [ht]; exact .refl t⟩
    · have ht := request_t hreq hx
      have hs : SameDescs t x.t := by
        rw [ht]
        exact .refl t
      cases req with
      | close => exact absurd rfl hreq
      | read dest size => exact hs
      | write src size => exact hs
      | ioctl cmd arg => exact hs
      | poll events timeout => exact hs

theorem CountsOK.step (h : CountsOK nDesc t) {c : DevCall F × ℤ} (hc : DescInTable nDesc t c)
    (hst : Step nDev nDesc t c t') : CountsOK nDesc t' := by
  obtain ⟨c, r⟩ := c
  cases c with
  | register name ops => exact h.congr hst.right
  | openDev name code =>
    obtain ⟨x, hx, he⟩ := map_eq_ok.mp hst
    obtain ⟨-, rfl⟩ := Prod.mk.inj he
    rcases rxDevOpen_spec hx with ⟨d, i, -, hlt, hfree, -, ht⟩ | ⟨-, -, ht⟩
    · rw [ht]
      refine h.setDesc hlt (v := some i) rfl fun j => ?_
      rw [addCount_count, hfree]
      by_cases hij : i = j <;> simp [hij, DevTable.setDesc]
    · rw [ht]
      exact h
  | request d req code =>
    obtain ⟨x, hx, he⟩ := map_eq_ok.mp hst
    obtain ⟨-, rfl⟩ := Prod.mk.inj he
    by_cases hreq : req = .close
    · subst hreq
      rcases rxDevClose_spec hx with ⟨-, i, hdi, ht⟩ | ⟨-, ht⟩
      · obtain ⟨h0, hlt⟩ : InTable nDesc d := hc
        obtain ⟨e, rfl⟩ := Int.eq_ofNat_of_zero_le h0
        rw [ht]
        refine h.setDesc (d := e) (by omega) (v := none) rfl fun j => ?_
        show ((t.addCount i (-1)).dev j).deviceOpenCount + _ = _
        rw [addCount_count, hdi]
        by_cases hij : i = j
        · simp [hij, Int.neg_add_cancel_right]
        · simp [hij]
      · rw [ht]
        exact h
    · rw [request_t hreq hx]
      exact h

theorem Init.countsOK (h : Init nDesc t) : CountsOK nDesc t := by
  intro i
  have hnil : t.openDescs nDesc i = [] := by
    apply List.filter_eq_nil_iff.mpr
    intro d hd
    simp [h.desc d (List.mem_range.mp hd)]
  rw [hnil, h.count i]
  rfl

/-- **Along every run of registrations, opens and closes of descriptors of the
table, whatever the drivers return, each counter is the number of the descriptors
of its device, `rx_dev_open` returns a free descriptor, and what fails changes
neither descriptors nor counters.** -/
theorem countsOK_of_run (hi : Init nDesc t) {tr : List ((DevCall F × ℤ) × DevTable F)}
    (h : Run.Exec (Step nDev nDesc) t tr) (hg : Run.Guarded (DescInTable nDesc) t tr) :
    (∀ x ∈ Run.states t tr, CountsOK nDesc x) ∧ Run.Exec (Right nDesc) t tr :=
  ⟨h.invariant_of_guarded (CountsOK nDesc) (fun _ _ _ hs hc hst => hs.step hc hst) hg hi.countsOK,
    h.of_guarded (CountsOK nDesc) (fun _ _ _ hs hc hst => ⟨hs.step hc hst, hst.right⟩) hg hi.countsOK⟩

/-! ### Calls on a descriptor -/

/-- The device of an open descriptor has a driver. -/
def Driven (nDesc : ℕ) (t : DevTable F) : Prop :=
  ∀ d i, InTable nDesc d → t.desc d = some i → (t.dev i).deviceOps ≠ none

theorem Driven.step (h : Driven nDesc t) {c : DevCall F × ℤ} (hst : Step nDev nDesc t c t') : Driven nDesc t' := by
  obtain ⟨c, r⟩ := c
  cases c with
  | register name ops =>
    have ht : (t.rxRegisterDriver nDev name ops).2 = t' := (Prod.mk.inj (Except.ok.inj hst)).2
    obtain ⟨hs, hkeep⟩ := rxRegisterDriver_spec nDev t name ops
    rw [← ht]
    intro d i hd hdi
    rw [hs.1] at hdi
    have hops := h d i hd hdi
    rw [hkeep i hops]
    exact hops
  | openDev name code =>
    obtain ⟨x, hx, he⟩ := map_eq_ok.mp hst
    obtain ⟨-, rfl⟩ := Prod.mk.inj he
    rcases rxDevOpen_spec hx with ⟨d, i, -, -, -, hops, ht⟩ | ⟨-, -, ht⟩
    · intro e j he hej
      rw [ht] at hej ⊢
      rw [addCount_ops]
      by_cases hed : e = d
      · subst hed
        have hij : some i = some j := by simpa [addCount, setDesc] using hej
        obtain rfl := Option.some.inj hij
        exact hops
      · exact h e j he (by simpa [addCount, setDesc, hed] using hej)
    · rw [ht]
      exact h
  | request d req code =>
    obtain ⟨x, hx, he⟩ := map_eq_ok.mp hst
    obtain ⟨-, rfl⟩ := Prod.mk.inj he
    by_cases hreq : req = .close
    · subst hreq
      rcases rxDevClose_spec hx with ⟨-, i, -, ht⟩ | ⟨-, ht⟩
      · intro e j he hej
        rw [ht] at hej ⊢
        show ((t.addCount i (-1)).dev j).deviceOps ≠ none
        rw [addCount_ops]
        by_cases hed : e = d
        · subst hed
          simp [setDesc] at hej
        · exact h e j he (by simpa [addCount, setDesc, hed] using hej)
      · rw [ht]
        exact h
    · rw [request_t hreq hx]
      exact h

theorem Init.driven (h : Init nDesc t) : Driven nDesc t := by
  intro d i hd hdi
  obtain ⟨h0, hlt⟩ := hd
  obtain ⟨e, rfl⟩ := Int.eq_ofNat_of_zero_le h0
  rw [h.desc e (by omega)] at hdi
  cases hdi

/-- A request on a descriptor without a device. -/
theorem request_closed (req : DevRequest) (hd : t.desc d = none) :
    t.request d code req = .ok { ret := -enodev, t := t, indexed := [d] } := by
  cases req <;> simp [request, rxDevClose, rxDevRead, rxDevWrite, rxDevIoctl, rxDevPoll, passRequest, hd]

/-- A request calls NULL when the driver does not have the operation. -/
theorem request_open (req : DevRequest) {i : ℕ} {ops : DeviceOps F} (hd : t.desc d = some i)
    (hops : (t.dev i).deviceOps = some ops) : t.request d code req = .error .null ↔ ops.op req = none := by
  cases hop : ops.op req with
  | none =>
    cases req <;>
      simp [request, rxDevClose, rxDevRead, rxDevWrite, rxDevIoctl, rxDevPoll, passRequest, hd, hops, hop]
  | some f =>
    cases req with
    | close =>
      by_cases hcode : code = 0 <;> simp [request, rxDevClose, hd, hops, hop, hcode]
    | read dest size => simp [request, rxDevRead, passRequest, hd, hops, hop]
    | write src size => simp [request, rxDevWrite, passRequest, hd, hops, hop]
    | ioctl cmd arg => simp [request, rxDevIoctl, passRequest, hd, hops, hop]
    | poll events timeout => simp [request, rxDevPoll, passRequest, hd, hops, hop]

theorem passRequest_indexed {req : DevRequest} (h : t.passRequest d req code = .ok x) : x.indexed = [d] := by
  unfold passRequest at h
  split at h
  · obtain rfl := Except.ok.inj h
    rfl
  · split at h
    · cases h
    · obtain rfl := Except.ok.inj h
      rfl

/-- Every request looks its descriptor up. -/
theorem request_indexed {req : DevRequest} (h : t.request d code req = .ok x) : x.indexed = [d] := by
  cases req with
  | close =>
    change t.rxDevClose d code = _ at h
    unfold rxDevClose at h
    split at h
    · obtain rfl := Except.ok.inj h
      rfl
    · split at h
      · cases h
      · split_ifs at h
        · obtain rfl := Except.ok.inj h
          rfl
        · obtain rfl := Except.ok.inj h
          rfl
  | read dest size => exact passRequest_indexed h
  | write src size => exact passRequest_indexed h
  | ioctl cmd arg => exact passRequest_indexed h
  | poll events timeout => exact passRequest_indexed h

theorem Driven.served_iff (h : Driven nDesc t) (d : ℤ) (req : DevRequest) :
    CallOK nDesc t d req ↔ Served nDesc t d req := by
  refine ⟨fun hc => ?_, fun hs => ⟨fun hno code => ?_, fun ho code he => ?_⟩⟩
  · have hin : InTable nDesc d := by
      by_contra hout
      obtain ⟨x, hx, -, hidx, -⟩ := hc.closed (fun ho => hout ho.1) 0
      rw [request_indexed hx] at hidx
      exact hout (hidx d (List.mem_singleton_self d))
    refine ⟨hin, fun i hi ops hops => ?_⟩
    by_contra hop
    have hnone : ops.op req = none := by simpa using hop
    exact hc.opened ⟨hin, by rw [Option.mem_def.mp hi]; simp⟩ 0 ((request_open req hi hops).mpr hnone)
  · have hd : t.desc d = none := by
      by_contra hd
      exact hno ⟨hs.1, hd⟩
    refine ⟨_, request_closed req hd, rfl, ?_, rfl, rfl⟩
    intro i hi
    rw [List.mem_singleton.mp hi]
    exact hs.1
  · obtain ⟨i, hi⟩ := Option.ne_none_iff_exists'.mp ho.2
    obtain ⟨ops, hops⟩ := Option.ne_none_iff_exists'.mp (h d i ho.1 hi)
    have hsome := hs.2 i hi ops hops
    rw [(request_open req hi hops).mp he] at hsome
    cases hsome

/-- **In every reachable state a call on a descriptor is as it should be if and
only if the descriptor is one of the table and the driver of an open one has
the operation.** -/
theorem callOK_iff (hi : Init nDesc t) {tr : List ((DevCall F × ℤ) × DevTable F)} (h : Run.Exec (Step nDev nDesc) t tr) :
    ∀ x ∈ Run.states t tr, ∀ d req, CallOK nDesc x d req ↔ Served nDesc x d req := by
  intro x hx d req
  exact (h.invariant (Driven nDesc) (fun _ _ _ hs hst => hs.step hst) hi.driven x hx).served_iff d req

end Calls

/-- The driver of the simulator (`drivers/simulator/x86sim.c`). -/
def fops : DeviceOps String where
  openFn := some "x86_sim_open"
  release := some "x86_sim_release"
  write := some "x86_sim_write"

/-- The device table of the simulator, with five free descriptors. -/
def simDevices : DevTable String where
  dev := fun _ => { name := "simx86" }

theorem simDevices_init : Init 5 simDevices := ⟨fun _ _ => rfl, fun _ => rfl⟩

/-- A driver that refuses an open and a release. -/
theorem countsOK_simDevices : Init 5 simDevices ∧ ∃ tr, Run.Exec (Step 1 5) simDevices tr ∧ tr.length = 8 ∧
    (∀ x ∈ Run.states simDevices tr, CountsOK 5 x) ∧ Run.Exec (Right 5) simDevices tr := by
  refine ⟨simDevices_init, ?_⟩
  obtain ⟨tr, hex, hp⟩ := Run.exists_exec (f := Run.attempt (fun _ _ => True) (exec 1 5))
    (fun _ _ _ h => (Run.step_of_attempt h).2) (s := simDevices)
    [(.openDev "simx86" 0, -6), (.register "simx86" (some fops), 0), (.openDev "simx86" 0, 0),
      (.openDev "simx86" (-5), -5), (.openDev "simx86" 0, 1), (.request 0 .close 3, 3), (.request 0 .close 0, 0),
      (.openDev "simx86" 0, 0)]
    (fun tr => decide (tr.length = 8 ∧ Run.Guarded (DescInTable 5) simDevices tr)) (by decide +kernel)
  obtain ⟨hlen, hg⟩ := of_decide_eq_true hp
  exact ⟨tr, hex, hlen, countsOK_of_run simDevices_init hex hg⟩

instance (nDesc : ℕ) (t : DevTable F) (d : ℤ) (req : DevRequest) : Decidable (Served nDesc t d req) :=
  decidable_of_iff (InTable nDesc d ∧ ((t.desc d).all fun i => (t.dev i).deviceOps.all fun ops => (ops.op req).isSome))
    (by simp [Served, Option.all_eq_true])

/-- The logger writes to its descriptor; one that is closed is refused. -/
theorem callOK_simDevices : Init 5 simDevices ∧ ∃ tr, Run.Exec (Step 1 5) simDevices tr ∧
    CallOK 5 (Run.final simDevices tr) 0 (.write 4096 1) ∧ CallOK 5 (Run.final simDevices tr) 1 (.read 4096 1) := by
  refine ⟨simDevices_init, ?_⟩
  obtain ⟨tr, hex, hp⟩ := Run.exists_exec (f := Run.attempt (fun _ _ => True) (exec 1 5))
    (fun _ _ _ h => (Run.step_of_attempt h).2) (s := simDevices)
    [(.register "simx86" (some fops), 0), (.openDev "simx86" 0, 0)]
    (fun tr => decide (Served 5 (Run.final simDevices tr) 0 (.write 4096 1) ∧
      Served 5 (Run.final simDevices tr) 1 (.read 4096 1))) (by decide +kernel)
  obtain ⟨h0, h1⟩ := of_decide_eq_true hp
  have hiff := callOK_iff simDevices_init hex _ (Run.final_mem_states _ _)
  exact ⟨tr, hex, (hiff 0 _).mpr h0, (hiff 1 _).mpr h1⟩

/-- The error code of an open that failed is used as a descriptor, and a read is
asked of a driver without one. -/
theorem calls_unguarded : Init 5 simDevices ∧ ∃ tr, Run.Exec (Step 1 5) simDevices tr ∧
    ¬ CallOK 5 (Run.final simDevices tr) (-enodev) (.write 4096 1) ∧
    ¬ CallOK 5 (Run.final simDevices tr) 0 (.read 4096 1) := by
  refine ⟨simDevices_init, ?_⟩
  obtain ⟨tr, hex, hp⟩ := Run.exists_exec (f := Run.attempt (fun _ _ => True) (exec 1 5))
    (fun _ _ _ h => (Run.step_of_attempt h).2) (s := simDevices)
    [(.openDev "uart" 0, -19), (.register "simx86" (some fops), 0), (.openDev "simx86" 0, 0)]
    (fun tr => decide (¬ Served 5 (Run.final simDevices tr) (-enodev) (.write 4096 1) ∧
      ¬ Served 5 (Run.final simDevices tr) 0 (.read 4096 1))) (by decide +kernel)
  obtain ⟨h0, h1⟩ := of_decide_eq_true hp
  have hdriven := hex.invariant (Driven 5) (fun _ _ _ hs hst => hs.step hst) simDevices_init.driven _
    (Run.final_mem_states _ _)
  exact ⟨tr, hex, mt (hdriven.served_iff _ _).mp h0, mt (hdriven.served_iff _ _).mp h1⟩

end DevTable

end Rosx
