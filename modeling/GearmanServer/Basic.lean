import Mathlib.Data.List.Basic

/-!
# Constants, return codes and byte strings of the job server

`constants.h` fixes the sizes the job functions of `server_job.c` use: 64-byte handle and
unique buffers, a 383-bucket hash and a pool of at most 1000 free job structures. Byte
strings are lists of bytes. `cString` is what `strcmp`, `strlen` and `%s` read of a buffer,
the `format*` functions are the two `snprintf` calls of `gearman_server_job_add`, and
`serverJobHash` is `_server_job_hash` over `uint32_t`.
-/

namespace GearmanServer

abbrev Bytes := List UInt8

abbrev gearmanJobHandleSize : Nat := 64
abbrev gearmanUniqueSize : Nat := 64
abbrev gearmanJobHashSize : Nat := 383
abbrev gearmanMaxFreeServerJob : Nat := 1000
abbrev gearmanDefaultMaxQueueSize : Nat := 0

/-- `gearman_job_priority_t` without its `GEARMAN_JOB_PRIORITY_MAX` sentinel. -/
inductive GearmanJobPriority
  | high
  | normal
  | low
  deriving DecidableEq, Repr

def GearmanJobPriority.all : List GearmanJobPriority := [.high, .normal, .low]

theorem GearmanJobPriority.mem_all (p : GearmanJobPriority) : p ∈ GearmanJobPriority.all := by
  cases p <;> simp [GearmanJobPriority.all]

inductive GearmanReturn
  | success | ioWait | shutdown | shutdownGraceful | errno | event | tooManyArgs
  | noActiveFds | invalidMagic | invalidCommand | invalidPacket | unexpectedPacket
  | getaddrinfo | noServers | lostConnection | memoryAllocationFailure | jobExists
  | jobQueueFull | serverError | workError | workData | workWarning | workStatus
  | workException | workFail | notConnected | couldNotConnect | sendInProgress
  | recvInProgress | notFlushing | dataTooLarge | invalidFunctionName
  | invalidWorkerFunction | noRegisteredFunctions | noJobs | echoDataCorruption
  | needWorkloadFn | pause | unknownState | pthread | pipeEof | queueError | flushData
  | sendBufferTooSmall | ignorePacket | unknownOption
  deriving DecidableEq, Repr

/-! ## C strings and `snprintf` -/

/-- The bytes `strcmp`, `strlen` and `%s` read from a buffer: those before its first NUL. -/
def cString (b : Bytes) : Bytes := b.takeWhile (· ≠ 0)

/-- What `snprintf(buf, size, ...)` leaves in `buf` as a C string: the output cut to
`size - 1` bytes. -/
def snprintfTrunc (size : Nat) (out : Bytes) : Bytes := out.take (size - 1)

def decimalDigits : Nat → Nat → Bytes
  | 0, _ => []
  | fuel + 1, n =>
    (if n / 10 = 0 then [] else decimalDigits fuel (n / 10)) ++ [(48 + n % 10).toUInt8]

def decimal (n : Nat) : Bytes := decimalDigits (n + 1) n

/-- `snprintf(server_job->job_handle, GEARMAN_JOB_HANDLE_SIZE, "%s:%u", prefix, count)`;
58 is `':'`. -/
def formatJobHandle (pfx : Bytes) (count : UInt32) : Bytes :=
  snprintfTrunc gearmanJobHandleSize (cString pfx ++ 58 :: decimal count.toNat)

/-- `snprintf(server_job->unique, GEARMAN_UNIQUE_SIZE, "%.*s", unique_size, unique)`. -/
def formatUnique (unique : Bytes) : Bytes :=
  snprintfTrunc gearmanUniqueSize (cString unique)

/-- The 64 bytes of the `unique` field after `memset` and `formatUnique`: the string, its NUL
and the zeros behind it. A queue callback handed `server_job->unique` reads these. -/
def uniqueField (stored : Bytes) : Bytes :=
  stored ++ List.replicate (gearmanUniqueSize - stored.length) 0

def memcmpEq (a b : Bytes) (n : Nat) : Bool := a.take n == b.take n

/-! ## `_server_job_hash` -/

def charToUInt32 (b : UInt8) : UInt32 :=
  if b < 128 then b.toUInt32 else b.toUInt32 + 0xFFFFFF00

def serverJobHashStep (value : UInt32) (b : UInt8) : UInt32 :=
  let value := value + charToUInt32 b
  let value := value + (value <<< 10)
  value ^^^ (value >>> 6)

def serverJobHash (key : Bytes) : UInt32 :=
  let value := key.foldl serverJobHashStep 0
  let value := value + (value <<< 3)
  let value := value ^^^ (value >>> 11)
  let value := value + (value <<< 15)
  if value = 0 then 1 else value

theorem serverJobHash_ne_zero (key : Bytes) : serverJobHash key ≠ 0 := by
  simp only [serverJobHash]
  split <;> simp_all

def hashBucket (key : UInt32) : Fin gearmanJobHashSize :=
  ⟨key.toNat % gearmanJobHashSize, Nat.mod_lt _ (by decide)⟩

end GearmanServer
