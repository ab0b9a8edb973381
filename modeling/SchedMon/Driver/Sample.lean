import SchedMon.Driver.State

/-!
# Counters and samples

`driver/pmc.c`, `driver/rapl.c`, `driver/sample.c`, and the lookups of `driver/envir.c`,
`driver/evset.c` and `driver/event.c` that they use. The functions of `pmc.c` work on the registers
of the CPU they run on; those of `sample.c` on the state.

## Main definitions

* `smonPmcSet`, `smonPmcWrite`, `smonPmcRead`, `smonPmcStart`, `smonPmcStop`
* `State.smonSampleStart`, `State.smonSampleStop`, `State.smonSampleSave`
-/

namespace SchedMon

/-! ### Registers -/

/-- `IA32_PERFEVTSEL`. -/
def ia32PerfEvtSel (x : ℕ) : ℕ := 0x186 + x

/-- `IA32_FIXED_CTR_CTRL`. -/
def ia32FixedCtrCtrl : ℕ := 0x38D

/-- `IA32_PERF_GLOBAL_CTRL`. -/
def ia32PerfGlobalCtrl : ℕ := 0x38F

/-- `IA32_PERF_GLOBAL_OVF_CTRL`. -/
def ia32PerfGlobalOvfCtrl : ℕ := 0x390

/-- `IA32_FX_CTR`. -/
def ia32FxCtr (x : ℕ) : ℕ := 0x309 + x

/-- `IA32_GP_CTR`. -/
def ia32GpCtr (x : ℕ) : ℕ := 0x4C1 + x

/-- `MSR_PLATFORM_INFO`. -/
def msrPlatformInfo : ℕ := 0xCE

/-- `MSR_RAPL_POWER_UNIT`. -/
def msrRaplPowerUnit : ℕ := 0x606

/-- `MSR_PKG_ENERGY_STATUS`. -/
def msrPkgEnergyStatus : ℕ := 0x611

/-- `MSR_PP0_ENERGY_STATUS`. -/
def msrPp0EnergyStatus : ℕ := 0x639

/-- `MSR_PP1_ENERGY_STATUS`. -/
def msrPp1EnergyStatus : ℕ := 0x641

/-- `msr_write`. -/
def msrWrite (num : ℕ) (val : I64) (msr : ℕ → I64) : ℕ → I64 := Function.update msr num val

/-! ### Event sets -/

/-- `smon_get_event`. -/
def smonGetEvent (events : List SmonEvent) (id : U32) : Option SmonEvent := events[id.toNat]?

/-- `smon_get_evset`. -/
def smonGetEvset (evsets : List SmonEvset) (id : U32) : Option SmonEvset := evsets[id.toNat]?

/-- `smon_set_evset`, with the result of `kmalloc`: what it returns, and the event sets. -/
def smonSetEvset (events : List SmonEvent) (evsets : List SmonEvset) (kmalloc : Bool)
    (evset : SmonEvset) : ℤ × List SmonEvset :=
  if evsets.length = 64 then (-4, evsets)
  else if !kmalloc then (-1, evsets)
  else if (List.finRange maxGpCtrs).any fun i =>
      0 ≤ (evset.evids i).toInt ∧ (smonGetEvent events (evset.evids i)).isNone then (-3, evsets)
  else (0, evsets ++ [evset])

/-- Reading `envir->esids[i]`. -/
def SmonEnvir.esid (envir : SmonEnvir) (i : ℕ) : Except Fault U32 :=
  if i < muxEvsets then .ok (envir.esids i) else .error .outOfBounds

/-- `smon_envir_get_evset`. -/
def smonEnvirGetEvset (evsets : List SmonEvset) (envir : SmonEnvir) (id : ℕ) :
    Except Fault (Option SmonEvset) :=
  if envir.nEsids.toNat ≤ id then .ok none
  else do
    let esid ← envir.esid id
    return smonGetEvset evsets esid

/-- `smon_envir_next_evset`. -/
def smonEnvirNextEvset (envir : SmonEnvir) (id : ℕ) : Except Fault ℕ :=
  if envir.nEsids.toNat = 0 then .error .divideByZero
  else .ok ((id + 1) % envir.nEsids.toNat)

/-! ### Programming the counters -/

/-- `smon_pmc_clr_overflows`. -/
def smonPmcClrOverflows : (ℕ → I64) → ℕ → I64 := msrWrite ia32PerfGlobalOvfCtrl 0

/-- `smon_pmc_set`. -/
def smonPmcSet (events : List SmonEvent) (evset : SmonEvset) (msr : ℕ → I64) : ℕ → I64 :=
  let msr := msrWrite ia32FixedCtrCtrl evset.fixedCtrl msr
  let msr := (List.finRange maxGpCtrs).foldl (fun msr (i : Fin maxGpCtrs) =>
    match smonGetEvent events (evset.evids i) with
    | some event => msrWrite (ia32PerfEvtSel i) event.perfevtsel msr
    | none => msr) msr
  smonPmcClrOverflows msr

/-- `smon_pmc_start`. -/
def smonPmcStart (evset : SmonEvset) : (ℕ → I64) → ℕ → I64 :=
  msrWrite ia32PerfGlobalCtrl evset.globalCtrl

/-- `smon_pmc_stop`. -/
def smonPmcStop : (ℕ → I64) → ℕ → I64 := msrWrite ia32PerfGlobalCtrl 0

/-- The test of `smon_pmc_read` on a fixed counter: the enable bits of its nibble. -/
def SmonEvset.fxEnabled (evset : SmonEvset) (i : Fin maxFxCtrs) : Bool :=
  evset.fixedCtrl &&& (3 <<< (4 * i.val)) ≠ 0

/-- The test of `smon_pmc_read` on a general-purpose counter. -/
def SmonEvset.gpEnabled (evset : SmonEvset) (i : Fin maxGpCtrs) : Bool :=
  0 ≤ (evset.evids i).toInt

/-- `smon_pmc_read`. -/
def smonPmcRead (evset : SmonEvset) (msr : ℕ → I64) : SmonPmc where
  fx i := if evset.fxEnabled i then msr (ia32FxCtr i) else 0
  gp i := if evset.gpEnabled i then msr (ia32GpCtr i) else 0

/-- `smon_pmc_write`. -/
def smonPmcWrite (pmc : SmonPmc) (msr : ℕ → I64) : ℕ → I64 :=
  let msr := (List.finRange maxFxCtrs).foldl
    (fun msr (i : Fin maxFxCtrs) => msrWrite (ia32FxCtr i) (pmc.fx i) msr) msr
  let msr := (List.finRange maxGpCtrs).foldl
    (fun msr (i : Fin maxGpCtrs) => msrWrite (ia32GpCtr i) (pmc.gp i) msr) msr
  smonPmcClrOverflows msr

/-! ### RAPL -/

/-- `smon_rapl_read`. -/
def smonRaplRead (msr : ℕ → I64) : SmonRapl where
  pkg := msr msrPkgEnergyStatus
  pp0 := msr msrPp0EnergyStatus
  pp1 := msr msrPp1EnergyStatus

/-- `smon_rapl_sub`. -/
def smonRaplSub (a b : SmonRapl) : SmonRapl where
  pkg := a.pkg - b.pkg
  pp0 := a.pp0 - b.pp0
  pp1 := a.pp1 - b.pp1

/-- `1 << n` as an `int`, widened to a `long long`. -/
def shiftedUnit (units : I64) (shift : ℕ) (mask : I64) : ℤ :=
  ((1 : U32) <<< ((units >>> shift) &&& mask).toNat).toInt

namespace State

/-! ### Handing samples to the ring buffer -/

/-- `smon_rb_write`, as its callers see it. -/
def smonRbWrite (s : State) (b : RbId) (sample : Sample) : State :=
  { s with rbs := Function.update s.rbs b { s.rbs b with log := (s.rbs b).log ++ [sample] } }

/-- `smon_sample_write`. -/
def smonSampleWrite (s : State) (rb : Option RbId) (sample : Sample) : State :=
  match rb with
  | some b => s.smonRbWrite b sample
  | none => s

/-! ### PMC samples -/

/-- `smon_sample_start`, on CPU `me`. -/
def smonSampleStart (s : State) (me : Cpu) (t : TaskId) : Except Fault State := do
  let task ← s.task t
  let envir ← s.envir task.envir
  let esid ← envir.esid task.evset
  match smonGetEvset s.evsets esid with
  | none => return s
  | some evset =>
    let s := s.onCpu me (smonPmcSet s.events evset)
    -- reload our counter values
    let s := s.onCpu me (smonPmcWrite task.samplePmc.pmc)
    let (tsc, s) := s.msrRdtsc
    let s := s.setTask t { task with
      tscTmp := tsc
      samplePmc := { task.samplePmc with
        timestampStart :=
          if task.samplePmc.timestampStart = 0 then tsc else task.samplePmc.timestampStart } }
    let s := s.onCpu me (smonPmcStart evset)
    return s.record (.start t me tsc)

/-- `smon_sample_stop`, on CPU `me`. -/
def smonSampleStop (s : State) (me : Cpu) (t : TaskId) : Except Fault State := do
  let s := s.onCpu me smonPmcStop
  let (tsc, s) := s.msrRdtsc
  let task ← s.task t
  let envir ← s.envir task.envir
  match ← smonEnvirGetEvset s.evsets envir task.evset with
  | none => throw .nullEvset
  | some evset =>
    let s := s.setTask t { task with
      samplePmc := { task.samplePmc with
        timestampStop := tsc
        duration := task.samplePmc.duration + (tsc - task.tscTmp)
        pmc := smonPmcRead evset (s.msr me) } }
    return s.record (.stop t me tsc)

/-- `smon_sample_save`. -/
def smonSampleSave (s : State) (t : TaskId) : Except Fault State := do
  let task ← s.task t
  let sample := { task.samplePmc with pid := task.pid, evset := task.evset }
  let s := s.smonSampleWrite task.rb (.pmc sample)
  let envir ← s.envir task.envir
  -- reset the sample, go to the next event set
  let evset ← smonEnvirNextEvset envir task.evset
  let s := s.setTask t { task with samplePmc := .zero, evset := evset }
  return s.record (.save t sample envir)

/-! ### RAPL samples -/

/-- `smon_sample_rapl_start`, on CPU `me`. -/
def smonSampleRaplStart (s : State) (me : Cpu) (sample : SampleRapl) : SampleRapl × State :=
  let rapl := smonRaplRead (s.msr me)
  let (tsc, s) := s.msrRdtsc
  ({ sample with rapl := rapl, timestamp := tsc }, s)

/-- `smon_sample_rapl_stop`, on CPU `me`. -/
def smonSampleRaplStop (s : State) (me : Cpu) (sample : SampleRapl) : SampleRapl × State :=
  let rapl := smonRaplRead (s.msr me)
  let (tsc, s) := s.msrRdtsc
  ({ sample with duration := tsc - sample.timestamp, rapl := smonRaplSub rapl sample.rapl }, s)

/-- `smon_sample_rapl_save`. -/
def smonSampleRaplSave (s : State) (b : RbId) (sample : SampleRapl) : State :=
  s.smonSampleWrite (some b) (.rapl sample)

/-! ### SCHED and INFO samples -/

/-- `smon_sample_sched_in`, on CPU `me`. -/
def smonSampleSchedIn (s : State) (me : Cpu) (t : TaskId) : Except Fault State := do
  let task ← s.task t
  let (tsc, s) := s.msrRdtsc
  return s.setTask t { task with
    sampleSched := { task.sampleSched with cpu := me, timestampIn := tsc } }

/-- `smon_sample_sched_out`. -/
def smonSampleSchedOut (s : State) (t : TaskId) : Except Fault State := do
  let task ← s.task t
  let (tsc, s) := s.msrRdtsc
  return s.setTask t { task with sampleSched := { task.sampleSched with timestampOut := tsc } }

/-- `smon_sample_sched_save`. -/
def smonSampleSchedSave (s : State) (t : TaskId) : Except Fault State := do
  let task ← s.task t
  let s := s.smonSampleWrite task.rb (.sched task.sampleSched)
  return s.record (.sched t task.sampleSched)

/-- `smon_sample_get_info`, on CPU `me`. -/
def smonSampleGetInfo (s : State) (me : Cpu) (envir : SmonEnvir) : SampleInfo × State :=
  let units := s.msr me msrRaplPowerUnit
  let info : SampleInfo :=
    { evsets := envir.nEsids
      nCpus := s.kernel.onlineCpus
      pmcSampleTime := envir.sampleTime
      raplSampleTime := envir.sampleTime
      powerUnits := shiftedUnit units 0 0xf
      energyUnits := shiftedUnit units 8 0x1f
      timeUnits := shiftedUnit units 16 0xf
      tscFrequency := ((s.msr me msrPlatformInfo >>> 8) &&& 0xFF).toNat
      timestamp := 0 }
  let (tsc, s) := s.msrRdtsc
  ({ info with timestamp := tsc }, s)

/-- `smon_sample_info_save`. -/
def smonSampleInfoSave (s : State) (b : RbId) (info : SampleInfo) : State :=
  s.smonSampleWrite (some b) (.info info)

end State

end SchedMon
