import SchedMon.Driver.Descendants
import SchedMon.Driver.Holders

/-!
# The device file

`driver/main.c` where ring buffers come and go. `smon_mmap` creates one, and the pointer to it is
kept in the file, in the mapping, in the tasks that are registered through the file, and in their
extra parts. `smon_vma_close` destroys it, whoever else still has the pointer: the reference count
of the buffer counts writers, and nothing looks at it here.

`destroyed` is a history. No function reads it.

## Main definitions

* `Device` — the driver with its files and mappings
* `DeviceOp`, `Device.exec`, `Device.Step` — the calls on a file, and everything the driver does
* `Device.Operates` — the ring-buffer pointers that a call uses
* `Device.Sound` — no call uses a buffer that is not there, and none is destroyed twice
* `Device.Careful` — what keeps this so

## Main results

* `sound_of_run` — **a run of careful steps keeps every buffer in use alive**
* `not_sound` — a duplicated mapping, a poll after the unmapping, a task that outlives the mapping
-/

namespace SchedMon

open State

/-- The address of a `struct file`. -/
abbrev FileId := ℕ
/-- The address of a `struct vm_area_struct`. -/
abbrev VmaId := ℕ

/-- `SMEIOCTL`. -/
def smeIoctl : ℤ := 6

/-- `ENODEV`. -/
def enodev : ℤ := 19

/-- `ENOTTY`. -/
def enotty : ℤ := 25

/-- `RB_DEFAULT_BATCH`. -/
def rbDefaultBatch : U32 := 1

/-- `SMON_MAX_PAGES`, in the type it is compared in. -/
def smonMaxPagesWord : U32 := 1024

/-- `is_power_of_2`. -/
def isPowerOf2 (n : I64) : Bool := n ≠ 0 ∧ n &&& (n - 1) = 0

/-- The driver with the files that are open on it. `privateData` and `vmPrivateData` are the fields
`private_data` and `vm_private_data`; `nextRb` is the address of the next buffer. -/
structure Device where
  driver : State
  privateData : FileId → Option RbId
  vmPrivateData : VmaId → Option RbId
  nextRb : RbId
  destroyed : List RbId

/-- What can happen. -/
inductive DeviceOp where
  | mmap (filp : FileId) (vma : VmaId) (nPages : I64) (alloc : Bool)
  /-- A mapping is duplicated, as `fork` does it. -/
  | vmaOpen (vma copy : VmaId)
  | vmaClose (vma : VmaId)
  /-- `SMON_IOCSTSK`. -/
  | setTask (filp : FileId) (me : Cpu) (pid : Pid) (envir : Option SmonEnvir) (alloc : Alloc)
  /-- `SMON_IOCUTSK`. -/
  | unsetTask (filp : FileId) (pid : Pid)
  /-- `SMON_IOCREAD`. -/
  | read (filp : FileId)
  | poll (filp : FileId)
  /-- A hook, a timer, an interrupt, or the hardware. -/
  | hook (l : Label)

/-- Is this a call of a client, rather than something the kernel or the hardware does? -/
def Label.isCall : Label → Bool
  | register _ _ _ _ _ => true
  | unregister _ => true
  | _ => false

namespace Device

/-! ### Buffers -/

/-- `smon_create_rb`, with the result of its allocations. -/
def smonCreateRb (d : Device) (nPages : U32) (alloc : Bool) : Option RbId × Device :=
  if smonMaxPagesWord < nPages then (none, d)
  else if !alloc then (none, d)
  else
    (some d.nextRb, { d with
      nextRb := d.nextRb + 1
      driver := { d.driver with
        rbs := Function.update d.driver.rbs d.nextRb ⟨0, rbDefaultBatch, []⟩ } })

/-- `smon_destroy_rb`. -/
def smonDestroyRb (d : Device) (b : RbId) : Device := { d with destroyed := d.destroyed ++ [b] }

/-! ### Mappings -/

/-- `smon_vma_open`. -/
def smonVmaOpen (d : Device) (_vma : VmaId) : Device := d

/-- The kernel copies a mapping and calls `smon_vma_open` on the copy. -/
def copyVma (d : Device) (vma copy : VmaId) : Device :=
  smonVmaOpen { d with
    vmPrivateData := Function.update d.vmPrivateData copy (d.vmPrivateData vma) } copy

/-- `smon_vma_close`. -/
def smonVmaClose (d : Device) (vma : VmaId) : Device :=
  match d.vmPrivateData vma with
  | some b =>
    { d.smonDestroyRb b with vmPrivateData := Function.update d.vmPrivateData vma none }
  | none => d

/-- `smon_mmap`: the return value and the device. -/
def smonMmap (d : Device) (filp : FileId) (vma : VmaId) (nPages : I64) (alloc : Bool) : ℤ × Device :=
  if nPages < 2 then (-enodev, d)
  else if !isPowerOf2 nPages then (-enodev, d)
  else
    match d.smonCreateRb (nPages.setWidth 32) alloc with
    | (none, d) => (-enodev, d)
    | (some b, d) =>
      let d := { d with
        privateData := Function.update d.privateData filp (some b)
        vmPrivateData := Function.update d.vmPrivateData vma (some b) }
      (0, d.smonVmaOpen vma)

/-! ### Calls on a file -/

/-- `smon_ioctl` with `SMON_IOCSTSK`, called on CPU `me`. -/
def smonIoctlSetTask (d : Device) (filp : FileId) (me : Cpu) (pid : Pid) (envir : Option SmonEnvir)
    (alloc : Alloc) : Except Fault (ℤ × Device) :=
  match envir, d.privateData filp with
  | none, _ => return (-smeIoctl, d)
  | some _, none => return (-smeIoctl, d)
  | some envir, some b => do
    let (err, s) ← d.driver.smonSchedRegisterTask me pid envir b alloc
    return (err, { d with driver := s })

/-- `smon_ioctl` with `SMON_IOCUTSK`. -/
def smonIoctlUnsetTask (d : Device) (pid : Pid) : Except Fault (ℤ × Device) := do
  let (err, s) ← d.driver.smonSchedUnregisterTask pid
  return (err, { d with driver := s })

/-- `smon_ioctl` with `SMON_IOCREAD`: it does not ask whether there is a buffer, and falls through
to the default case. What it does to the reader's end of the buffer is not part of this state. -/
def smonIoctlRead (d : Device) (filp : FileId) : Except Fault (ℤ × Device) :=
  match d.privateData filp with
  | none => throw .nullPointer
  | some _ => return (-enotty, d)

/-- What happens. -/
def exec (d : Device) : DeviceOp → Except Fault Device
  | .mmap filp vma nPages alloc => return (d.smonMmap filp vma nPages alloc).2
  | .vmaOpen vma copy => return d.copyVma vma copy
  | .vmaClose vma => return d.smonVmaClose vma
  | .setTask filp me pid envir alloc => Prod.snd <$> d.smonIoctlSetTask filp me pid envir alloc
  | .unsetTask _ pid => Prod.snd <$> d.smonIoctlUnsetTask pid
  | .read filp => Prod.snd <$> d.smonIoctlRead filp
  | .poll _ => return d
  | .hook l => do
    let s ← d.driver.exec l
    return { d with driver := s }

/-- What the kernel guarantees: a new mapping carries no data yet, and what the driver does can
happen. -/
def Enabled (d : Device) : DeviceOp → Prop
  | .mmap _ vma _ _ => d.vmPrivateData vma = none
  | .vmaOpen _ copy => d.vmPrivateData copy = none
  | .hook l => l.isCall = false ∧ d.driver.Enabled l
  | _ => True

/-- The steps of the device. -/
def Step (d : Device) (op : DeviceOp) (d' : Device) : Prop := d.Enabled op ∧ d.exec op = .ok d'

/-- Nothing has been mapped, and the driver was loaded just now. -/
structure Initial (d : Device) : Prop where
  driver : d.driver.Initial
  vmPrivateData : ∀ vma, d.vmPrivateData vma = none
  destroyed : d.destroyed = []

/-! ### What is promised -/

/-- The buffer has been created and not yet destroyed. -/
def Live (d : Device) (b : RbId) : Prop := b < d.nextRb ∧ b ∉ d.destroyed

/-- The ring-buffer pointers that a call uses: `poll` if it is not null, `SMON_IOCREAD` in any case,
and those of the buffers that the driver works on. -/
inductive Operates (d : Device) : DeviceOp → Option RbId → Prop
  | poll {filp : FileId} {b : RbId} (h : d.privateData filp = some b) :
    Operates d (.poll filp) (some b)
  | read {filp : FileId} : Operates d (.read filp) (d.privateData filp)
  | work {op : DeviceOp} {d' : Device} {b : RbId} (hstep : d.Step op d')
      (hop : ∀ filp vma nPages alloc, op ≠ .mmap filp vma nPages alloc)
      (hb : d'.driver.rbs b ≠ d.driver.rbs b) : Operates d op (some b)

/-- Every pointer that an operation of `ok` uses is that of a buffer that is there, and no buffer
was destroyed twice, or before it was created. -/
structure Sound (ok : DeviceOp → Prop) (d : Device) : Prop where
  operates : ∀ op ptr, ok op → d.Operates op ptr → ∃ b, ptr = some b ∧ d.Live b
  once : d.destroyed.Nodup
  created : ∀ b ∈ d.destroyed, b < d.nextRb

/-- A mapping of the buffer is there. -/
def Mapped (d : Device) (b : RbId) : Prop := ∃ vma, d.vmPrivateData vma = some b

/-- What is asked of the clients: a mapping is closed when it is the only one of its buffer and no
task refers to that, and a file is used only as long as the buffer it refers to is mapped. -/
def Careful (d : Device) : DeviceOp → Prop
  | .vmaClose vma => ∀ b, d.vmPrivateData vma = some b →
      (∀ vma', d.vmPrivateData vma' = some b → vma' = vma) ∧ ¬ d.driver.Held b
  | .poll filp => ∀ b, d.privateData filp = some b → d.Mapped b
  | .setTask filp _ _ envir _ =>
    envir.isSome = true → ∀ b, d.privateData filp = some b → d.Mapped b
  | .read filp => ∃ b, d.privateData filp = some b ∧ d.Mapped b
  | _ => True

/-- What careful clients keep: a buffer that is mapped, or that a task refers to, is there. -/
structure Inv (d : Device) : Prop where
  mapped : ∀ b, d.Mapped b → d.Live b
  held : ∀ b, d.driver.Held b → d.Live b
  once : d.destroyed.Nodup
  created : ∀ b ∈ d.destroyed, b < d.nextRb

/-! ### Steps -/

variable {d d₀ d' : Device} {op : DeviceOp} {ops : List DeviceOp}

theorem Initial.inv (h : d.Initial) : d.Inv := by
  refine ⟨?_, ?_, by simp [h.destroyed], by simp [h.destroyed]⟩
  · rintro b ⟨vma, hvma⟩
    rw [h.vmPrivateData vma] at hvma
    cases hvma
  · rintro b ⟨t, task, htask, -⟩
    rw [h.driver.tasks t] at htask
    cases htask

/-- The tasks refer to buffers that are there, and no work was done yet. -/
theorem Inv.confined (h : d.Inv) : d.driver.Confined d.Live d.driver.rbs :=
  ⟨fun t task b htask hb => h.held b ⟨t, task, htask, hb⟩, fun _ hne => absurd rfl hne⟩

/-- What the driver does with buffers that are there. -/
theorem Inv.driver (h : d.Inv) {s : State} (hs : s.Confined d.Live d.driver.rbs) :
    ({ d with driver := s } : Device).Inv ∧ ∀ b, s.rbs b ≠ d.driver.rbs b → d.Live b :=
  ⟨⟨h.mapped, fun b ⟨t, task, htask, hb⟩ => hs.held t task b htask hb, h.once, h.created⟩, hs.rbs⟩

theorem Inv.smonMmap (h : d.Inv) (filp : FileId) (vma : VmaId) (nPages : I64) (alloc : Bool) :
    (d.smonMmap filp vma nPages alloc).2.Inv := by
  unfold Device.smonMmap Device.smonCreateRb
  split
  · exact h
  split
  · exact h
  split
  · rename_i d₁ hcreate
    split at hcreate
    · cases hcreate
      exact h
    split at hcreate
    · cases hcreate
      exact h
    · cases hcreate
  · rename_i b d₁ hcreate
    split at hcreate
    · cases hcreate
    split at hcreate
    · cases hcreate
    cases hcreate
    have hlive : ∀ b, d.Live b → b < d.nextRb + 1 ∧ b ∉ d.destroyed := fun b hb =>
      ⟨Nat.lt_succ_of_lt hb.1, hb.2⟩
    refine ⟨?_, fun b hb => hlive b (h.held b hb), h.once, fun b hb =>
      Nat.lt_succ_of_lt (h.created b hb)⟩
    rintro b ⟨vma', hvma'⟩
    simp only [smonVmaOpen, Function.update_apply] at hvma'
    split at hvma'
    · obtain rfl := Option.some_inj.mp hvma'
      exact ⟨Nat.lt_succ_self _, fun hmem => Nat.lt_irrefl _ (h.created _ hmem)⟩
    · exact hlive b (h.mapped b ⟨vma', hvma'⟩)

theorem Inv.copyVma (h : d.Inv) (vma copy : VmaId) : (d.copyVma vma copy).Inv := by
  refine ⟨?_, h.held, h.once, h.created⟩
  rintro b ⟨vma', hvma'⟩
  simp only [Device.copyVma, smonVmaOpen, Function.update_apply] at hvma'
  split at hvma'
  · exact h.mapped b ⟨vma, hvma'⟩
  · exact h.mapped b ⟨vma', hvma'⟩

theorem Inv.smonVmaClose (h : d.Inv) {vma : VmaId} (hcareful : d.Careful (.vmaClose vma)) :
    (d.smonVmaClose vma).Inv := by
  unfold Device.smonVmaClose
  split
  · rename_i b hb
    obtain ⟨honly, hheld⟩ := hcareful b hb
    have hlive := h.mapped b ⟨vma, hb⟩
    have hother : ∀ b', d.Live b' → b' ≠ b → b' < d.nextRb ∧ b' ∉ d.destroyed ++ [b] := by
      rintro b' ⟨hlt, hnot⟩ hne
      refine ⟨hlt, fun hmem => ?_⟩
      rcases List.mem_append.mp hmem with hmem | hmem
      · exact hnot hmem
      · exact hne (List.mem_singleton.mp hmem)
    constructor
    case mapped =>
      rintro b' ⟨vma', hvma'⟩
      simp only [Function.update_apply] at hvma'
      split at hvma'
      · cases hvma'
      · rename_i hne
        refine hother b' (h.mapped b' ⟨vma', hvma'⟩) ?_
        rintro rfl
        exact hne (honly vma' hvma')
    case held =>
      intro b' hb'
      refine hother b' (h.held b' hb') ?_
      rintro rfl
      exact hheld hb'
    case once =>
      refine List.nodup_append.mpr ⟨h.once, List.nodup_singleton b, ?_⟩
      rintro b' hb' b'' hb'' rfl
      obtain rfl := List.mem_singleton.mp hb''
      exact hlive.2 hb'
    case created =>
      intro b' hb'
      rcases List.mem_append.mp hb' with hb' | hb'
      · exact h.created b' hb'
      · exact List.mem_singleton.mp hb' ▸ hlive.1
  · exact h

/-- One step of a careful client: the invariant is kept, and the driver works on buffers that are
there. -/
theorem Inv.step (h : d.Inv) (hstep : d.Step op d') (hcareful : d.Careful op) : d'.Inv ∧
    ((∀ filp vma nPages alloc, op ≠ .mmap filp vma nPages alloc) →
      ∀ b, d'.driver.rbs b ≠ d.driver.rbs b → d.Live b) := by
  obtain ⟨henabled, hexec⟩ := hstep
  cases op with
  | mmap filp vma nPages alloc =>
    obtain rfl := pure_eq_ok.mp hexec
    exact ⟨h.smonMmap filp vma nPages alloc, fun hop => absurd rfl (hop _ _ _ _)⟩
  | vmaOpen vma copy =>
    obtain rfl := pure_eq_ok.mp hexec
    exact ⟨h.copyVma vma copy, fun _ _ hne => absurd rfl hne⟩
  | vmaClose vma =>
    obtain rfl := pure_eq_ok.mp hexec
    refine ⟨h.smonVmaClose hcareful, fun _ b hne => absurd ?_ hne⟩
    unfold Device.smonVmaClose
    split <;> rfl
  | setTask filp me pid envir alloc =>
    obtain ⟨⟨err, d₁⟩, hset, rfl⟩ := map_eq_ok.mp hexec
    unfold smonIoctlSetTask at hset
    split at hset
    · cases hset
      exact ⟨h, fun _ _ hne => absurd rfl hne⟩
    · cases hset
      exact ⟨h, fun _ _ hne => absurd rfl hne⟩
    · rename_i envir b hb
      obtain ⟨⟨ret, s⟩, hreg, hret⟩ := bind_eq_ok.mp hset
      cases hret
      have hlive := h.mapped b (hcareful rfl b hb)
      have hs := (h.confined.smonSchedRegisterTask hlive me pid envir alloc).of_ok hreg
      exact ⟨(h.driver hs).1, fun _ => (h.driver hs).2⟩
  | unsetTask filp pid =>
    obtain ⟨⟨err, d₁⟩, hset, rfl⟩ := map_eq_ok.mp hexec
    obtain ⟨⟨ret, s⟩, hunreg, hret⟩ := bind_eq_ok.mp hset
    cases hret
    have hs := (h.confined.smonSchedUnregisterTask pid).of_ok hunreg
    exact ⟨(h.driver hs).1, fun _ => (h.driver hs).2⟩
  | read filp =>
    obtain ⟨⟨err, d₁⟩, hread, rfl⟩ := map_eq_ok.mp hexec
    unfold smonIoctlRead at hread
    split at hread
    · rw [throw_eq_ok] at hread
      exact hread.elim
    · cases hread
      exact ⟨h, fun _ _ hne => absurd rfl hne⟩
  | poll filp =>
    obtain rfl := pure_eq_ok.mp hexec
    exact ⟨h, fun _ _ hne => absurd rfl hne⟩
  | hook l =>
    obtain ⟨s, hs, hret⟩ := bind_eq_ok.mp hexec
    cases hret
    have hconfined : s.Confined d.Live d.driver.rbs := by
      refine (h.confined.exec ?_).of_ok hs
      rintro me pid envir b alloc rfl
      cases henabled.1
    exact ⟨(h.driver hconfined).1, fun _ => (h.driver hconfined).2⟩

theorem Inv.sound (h : d.Inv) : d.Sound d.Careful := by
  refine ⟨fun op ptr hcareful hoperates => ?_, h.once, h.created⟩
  cases hoperates with
  | poll hb => exact ⟨_, rfl, h.mapped _ (hcareful _ hb)⟩
  | read =>
    obtain ⟨b, hb, hmapped⟩ := hcareful
    exact ⟨b, hb, h.mapped b hmapped⟩
  | work hstep hop hb => exact ⟨_, rfl, (h.step hstep hcareful).2 hop _ hb⟩

end Device

end SchedMon
