import NeighborSearch.Device.Command

/-!
# Sessions without waiting

In an *eager session* every launch runs to its end at the moment it is made. A stream is
then nothing but the first error since one was last asked for, and a pending result is
the result. No command ever has to wait. A session answers every list of commands as the
eager session does.
-/

namespace NeighborSearch

/-- A device on which every launch runs at once. -/
structure EagerSession where
  /-- The configuration of the device. -/
  device : DeviceConfig
  /-- The stored values. -/
  store : Store
  /-- The first error of every stream since one was last asked for. -/
  errors : Bindings (Option SelectError)
  /-- The results not yet waited for. -/
  pending : Bindings (Except SelectError Outcome)

namespace EagerSession

/-- A device that has just been started. -/
def start (device : DeviceConfig) : EagerSession := ⟨device, .empty, [], []⟩

/-- Carry out a command. -/
def perform (s : EagerSession) : Command → EagerSession × Answer
  | .store c =>
    let (store, answer) := s.store.perform s.device.launch c
    ({ s with store }, answer)
  | .openStream name => ({ s with errors := s.errors.put name none }, .done)
  | .closeStream name =>
    match s.errors.get? name with
    | some _ => ({ s with errors := s.errors.erase name }, .done)
    | none => (s, .unknown name)
  | .launch name request pending =>
    match s.errors.get? name with
    | none => (s, .unknown name)
    | some error =>
      match s.store.kernel request with
      | .error answer => (s, answer)
      | .ok kernel =>
        let result := (kernel s.device.launch).result
        ({ s with
          errors := s.errors.put name (error.or (errorOf? result))
          pending := s.pending.put pending result }, .done)
  | .wait name =>
    match s.pending.get? name with
    | none => (s, .unknown name)
    | some result => ({ s with pending := s.pending.erase name }, .ofResult result)
  | .forget name =>
    match s.pending.get? name with
    | none => (s, .unknown name)
    | some _ => ({ s with pending := s.pending.erase name }, .done)
  | .synchronize name =>
    match s.errors.get? name with
    | none => (s, .unknown name)
    | some (some e) => ({ s with errors := s.errors.put name none }, .failed e)
    | some none => (s, .done)
  | .describe name =>
    match s.errors.get? name with
    | none => (s, .unknown name)
    | some _ =>
      (s, .description (Stream.create s.device.launch : Stream Outcome).describe)

/-- Carry out the commands one after the other. -/
def run (s : EagerSession) : List Command → List Answer
  | [] => []
  | c :: cs =>
    let (s, a) := s.perform c
    a :: s.run cs

end EagerSession

end NeighborSearch
