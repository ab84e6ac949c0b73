import NoiseSocket.NoiseC

/-!
A concrete noise-c: the three messages of the pattern XX with fixed contents of
the lengths that Curve25519 and a 16-byte tag give them, and a cipher that only
appends a tag. It does what the library does when both sides follow the pattern.
-/

namespace ngx_nsoc

/-- The state of a handshake: the role, and the messages that have passed. -/
structure Pattern where
  role : NoiseRole
  passed : Nat
deriving DecidableEq, Repr

def NOISE_ERROR_MAC_FAILURE : Nat := 0x4507
def NOISE_ERROR_INVALID_STATE : Nat := 0x450B

/-- The handshake messages of the pattern. -/
def Pattern.message : Nat → List UInt8
  | 0 => List.replicate 32 1
  | 1 => List.replicate 96 2
  | _ => List.replicate 64 3

/-- Whose turn it is. -/
def Pattern.get_action (p : Pattern) : Int :=
  match p.role, p.passed with
  | .initiator, 0 => NOISE_ACTION_WRITE_MESSAGE
  | .initiator, 1 => NOISE_ACTION_READ_MESSAGE
  | .initiator, 2 => NOISE_ACTION_WRITE_MESSAGE
  | .responder, 0 => NOISE_ACTION_READ_MESSAGE
  | .responder, 1 => NOISE_ACTION_WRITE_MESSAGE
  | .responder, 2 => NOISE_ACTION_READ_MESSAGE
  | _, 3 => NOISE_ACTION_SPLIT
  | _, _ => NOISE_ACTION_FAILED

def Pattern.tag : List UInt8 := List.replicate 16 0

/-- noise-c for the pattern XX. -/
def pattern_xx : NoiseC Pattern where
  noise_init p := (NOISE_ERROR_NONE, p)
  handshakestate_new_by_id _ role _ := (NOISE_ERROR_NONE, ⟨role, 0⟩)
  handshakestate_set_prologue _ p := (NOISE_ERROR_NONE, p)
  handshakestate_needs_local_keypair _ := true
  dhstate_get_private_key_length _ := 32
  dhstate_set_keypair_private _ p := (NOISE_ERROR_NONE, p)
  handshakestate_needs_remote_public_key _ := false
  dhstate_get_public_key_length _ := 32
  dhstate_set_public_key _ p := (NOISE_ERROR_NONE, p)
  handshakestate_start p := (NOISE_ERROR_NONE, p)
  handshakestate_get_action p := p.get_action
  handshakestate_write_message p :=
    if p.get_action = NOISE_ACTION_WRITE_MESSAGE then
      ((NOISE_ERROR_NONE, Pattern.message p.passed), { p with passed := p.passed + 1 })
    else ((NOISE_ERROR_INVALID_STATE, []), p)
  handshakestate_read_message bytes p :=
    if p.get_action = NOISE_ACTION_READ_MESSAGE then
      if bytes = Pattern.message p.passed then
        (NOISE_ERROR_NONE, { p with passed := p.passed + 1 })
      else (NOISE_ERROR_MAC_FAILURE, { p with passed := 4 })
    else (NOISE_ERROR_INVALID_STATE, p)
  handshakestate_split p := (NOISE_ERROR_NONE, p)
  handshakestate_free p := (NOISE_ERROR_NONE, p)
  cipherstate_encrypt plain p := ((NOISE_ERROR_NONE, plain ++ Pattern.tag), p)
  cipherstate_decrypt sealed p :=
    if sealed.drop (sealed.length - 16) = Pattern.tag then
      ((NOISE_ERROR_NONE, sealed.take (sealed.length - 16)), p)
    else ((NOISE_ERROR_MAC_FAILURE, sealed), p)

def NOISE_ERROR_UNKNOWN_ID : Nat := 0x4502

/-- The same, with the check of the ids. -/
def checked_xx : NoiseC Pattern :=
  { pattern_xx with
    handshakestate_new_by_id := fun id role p =>
      if id.cipher_id = NOISE_ID 'C' 0 ∨ id.dh_id = NOISE_ID 'D' 0 ∨ id.hash_id = NOISE_ID 'H' 0 ∨
        id.pattern_id = NOISE_ID 'P' 0 then (NOISE_ERROR_UNKNOWN_ID, p)
      else (NOISE_ERROR_NONE, ⟨role, 0⟩) }

theorem knownIds_checked_xx : checked_xx.KnownIds := by
  constructor
  all_goals
    intro id role s hzero
    simp [checked_xx, hzero, NOISE_ERROR_UNKNOWN_ID]

theorem tagged_pattern_xx : pattern_xx.Tagged := by
  constructor
  · intro plain p _
    simp [pattern_xx, Pattern.tag]
  · intro sealed p
    unfold pattern_xx
    dsimp only
    split_ifs
    · simp
    · exact Nat.le_refl _

theorem alternates_pattern_xx : pattern_xx.Alternates := by
  constructor
  · intro p p' message hcall
    obtain ⟨role, passed⟩ := p
    rcases role with _ | _ <;> rcases passed with _ | _ | _ | _ | k
    all_goals
      simp [pattern_xx, Pattern.get_action, NOISE_ERROR_INVALID_STATE] at hcall
    all_goals
      obtain ⟨-, rfl⟩ := hcall
      simp [pattern_xx, Pattern.get_action]
  · intro p p' message hcall
    obtain ⟨role, passed⟩ := p
    rcases role with _ | _ <;> rcases passed with _ | _ | _ | _ | k
    all_goals
      simp [pattern_xx, Pattern.get_action, NOISE_ERROR_INVALID_STATE] at hcall
    all_goals
      split_ifs at hcall <;> simp [NOISE_ERROR_MAC_FAILURE] at hcall
    all_goals
      subst hcall
      simp [pattern_xx, Pattern.get_action]

end ngx_nsoc
