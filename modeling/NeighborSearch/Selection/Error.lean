/-!
# Why a selection fails

*Argument errors* are found before anything is launched. *Execution errors* arise
while a launch runs: it may not get the memory it needs, or fail in another way, of
which it leaves a text.
-/

namespace NeighborSearch

/-- What is wrong with the arguments of a selection. -/
inductive ArgumentError
  /-- Nothing is to be selected. -/
  | zeroCount
  /-- More is to be selected than there are candidates. -/
  | countExceeds (k candidates : Nat)
  /-- The bias has not one entry for every column. -/
  | biasLength (entries columns : Nat)
  /-- There are more candidates than can be numbered. -/
  | tooManyCandidates (candidates : Nat)
  /-- What a caller with arguments of its own says of them. -/
  | stated (text : String)
deriving DecidableEq, Repr

/-- The error in words. -/
def ArgumentError.message : ArgumentError → String
  | .zeroCount => "k must be at least 1"
  | .countExceeds k candidates =>
    s!"k ({k}) exceeds the number of candidates ({candidates})"
  | .biasLength entries columns =>
    s!"bias has {entries} entries but the distance matrix has {columns} columns"
  | .tooManyCandidates candidates =>
    s!"the number of candidates ({candidates}) exceeds the range of u32 column indices"
  | .stated text => text

/-- Why a selection, or another launch on a device, has no result. -/
inductive SelectError
  /-- The arguments are refused. -/
  | invalidArgument (cause : ArgumentError)
  /-- Memory of this size cannot be had. -/
  | outOfMemory (bytes : Nat)
  /-- The launch failed while it ran. -/
  | launchFailed (text : String)
  /-- The stream takes no launches and completes none. -/
  | streamClosed
  /-- The device cannot be started. -/
  | deviceUnavailable (text : String)
deriving DecidableEq, Repr

namespace SelectError

/-- The error in words. -/
def message : SelectError → String
  | .invalidArgument cause => "invalid argument: " ++ cause.message
  | .outOfMemory bytes => s!"out of memory: failed to allocate {bytes} bytes"
  | .launchFailed text => "kernel launch failed: " ++ text
  | .streamClosed => "the stream has shut down and can no longer accept or complete launches"
  | .deviceUnavailable text => "device unavailable: " ++ text

/-- Whether the error arose while a launch was running, not when it was asked for. -/
def isExecutionError : SelectError → Bool
  | .outOfMemory _ | .launchFailed _ => true
  | .invalidArgument _ | .streamClosed | .deviceUnavailable _ => false

/-- The error of a launch that broke off, leaving a text or something else. -/
def ofPanic (payload : Option String) : SelectError :=
  .launchFailed (payload.getD "kernel panicked with a non-string payload")

end SelectError

end NeighborSearch
