import Mynfs.Open.Reclaim

/-! The open states of a state owner (nfs4state.c). The lists change under the locks of the owner and the inode. -/

namespace Mynfs

/-- `id` stands for the address of the `struct nfs4_state`. -/
structure OwnerState where
  id : Nat
  inode : Nat
  count : Nat := 1
  st : Nfs4State := {}

def OwnerState.write (state : OwnerState) : Bool := state.st.state.write

/-- `inodeStates` are the states of the owner in the lists of the inodes, the newest first. -/
structure StateOwner where
  soStates : List OwnerState := []
  inodeStates : List Nat := []
  nextId : Nat := 0

namespace StateOwner
variable (owner : StateOwner) (id : Nat)

/-- `__nfs4_find_state_byowner` up to the new reference. -/
def nfs4FindStateByowner (inode : Nat) : Option Nat :=
  owner.inodeStates.find? fun id => owner.soStates.any fun state =>
    state.id = id && state.inode = inode && !state.st.recoveryFailed && state.count ≠ 0

/-- Changes a state. `nfs4_state_set_mode_locked` sets a new mode, and moves the state with its write bit. -/
def change (f : OwnerState → OwnerState) : StateOwner :=
  let i := owner.soStates.findIdx (·.id = id)
  match owner.soStates[i]? with
  | none => owner
  | some state =>
    let rest := owner.soStates.eraseIdx i
    { owner with
      soStates :=
        if (f state).write = state.write then owner.soStates.set i (f state)
        else if (f state).write then f state :: rest
        else rest ++ [f state] }

def changeSt (f : Nfs4State → Nfs4State) : StateOwner := owner.change id fun state => { state with st := f state.st }

/-- `alloc` tells that there is memory for a new state. -/
def nfs4GetOpenState (inode : Nat) (alloc : Bool) : StateOwner :=
  match owner.nfs4FindStateByowner inode with
  | some id => owner.change id fun state => { state with count := state.count + 1 }
  | none =>
    if alloc then
      { soStates := owner.soStates ++ [{ id := owner.nextId, inode := inode }]
        inodeStates := owner.nextId :: owner.inodeStates
        nextId := owner.nextId + 1 }
    else owner

def nfs4PutOpenState : StateOwner :=
  if owner.soStates.any fun state => state.id = id && 1 < state.count then
    owner.change id fun state => { state with count := state.count - 1 }
  else { owner with soStates := owner.soStates.eraseP (·.id = id), inodeStates := owner.inodeStates.erase id }

/-- `__nfs4_close`. If there is a CLOSE, the reference is put after it. -/
def nfs4Close (fmode : Fmode) : StateOwner :=
  let closed := owner.changeSt id fun st => (st.nfs4Close fmode).2
  if owner.soStates.any fun state => state.id = id && (state.st.nfs4Close fmode).1 then closed
  else closed.nfs4PutOpenState id

end StateOwner

/-- Calls on the states of an owner. -/
inductive OwnerEvent
  | get (inode : Nat) (alloc : Bool)
  | setMode (id : Nat) (fmode : Fmode)
  | opened (id : Nat) (fmode : Fmode)
  | close (id : Nat) (fmode : Fmode)
  | put (id : Nat)
  | recoveryFailed (id : Nat)

def StateOwner.step (owner : StateOwner) : OwnerEvent → StateOwner
  | .get inode alloc => owner.nfs4GetOpenState inode alloc
  | .setMode id fmode => owner.changeSt id (·.nfs4StateSetModeLocked fmode)
  | .opened id fmode => owner.changeSt id (·.updateOpenStateflags fmode)
  | .close id fmode => owner.nfs4Close id fmode
  | .put id => owner.nfs4PutOpenState id
  | .recoveryFailed id => owner.changeSt id fun st => { st with recoveryFailed := true }

/-- What the reclaim reads of a state; `other` has its locks and the flags that are not in `Nfs4State`. -/
def OwnerState.toReclaim (state : OwnerState) (other : ReclaimState) : ReclaimState :=
  { other with
    id := state.id
    reclaimNograce := state.st.reclaimNograce
    recoveryFailed := state.st.recoveryFailed
    delegatedState := state.st.delegatedState
    state := state.st.state }

end Mynfs
