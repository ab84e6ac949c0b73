import NoiseSocket.Lib.Base64
import NoiseSocket.NoiseProtocol.Keys.Passed

open Exec Exec.Result

namespace ngx_noise_protocol

open ngx_nsoc

variable {S : Type}

/-- The keys of a server connection and of a proxy connection. -/
def load_keys (role : Role) (conf : KeyConf) (alloc : KeyAlloc) (mem : Memory) :
    Result (Int × NoiseCtx × Memory) :=
  match role with
  | .server => noiseserver_load_keys conf alloc ⟨none, none⟩ mem
  | .client => proxy_load_keys conf alloc mem

/-- A key array holds the key that `load` gives: the record is at its elements, and
the record points to the key. -/
structure Held (load : Nat → Int × List UInt8) (block : KeyBlock) (keys : KeyArray) (mem : Memory) :
    Prop where
  elts : keys.elts = block.elts
  record : mem.read block.elts 16 = block.record
  key : load 32 = (NGX_OK, mem.read block.data 32)

theorem Held.of_apart {load : Nat → Int × List UInt8} {block other : KeyBlock} {keys : KeyArray}
    {mem mem' : Memory} (h : Held load block keys mem)
    (hrecord : Apart block.elts 16 other.elts 16) (hrecord' : Apart block.elts 16 other.data 32)
    (hkey : Apart block.data 32 other.elts 16) (hkey' : Apart block.data 32 other.data 32)
    (hsame : ∀ addr len, Apart addr len other.elts 16 → Apart addr len other.data 32 →
      mem'.read addr len = mem.read addr len) : Held load block keys mem' := by
  refine ⟨h.elts, ?_, ?_⟩
  · rw [hsame _ _ hrecord hrecord', h.record]
  · rw [hsame _ _ hkey hkey', h.key]

theorem Apart.symm {addr len addr' len' : Nat} (h : Apart addr len addr' len') :
    Apart addr' len' addr len := Or.symm h

/-- What the block that loads the private key does. -/
theorem load_private_keys_ok {conf : KeyConf} {alloc : KeyAlloc} {ctx ctx' : NoiseCtx}
    {mem mem' : Memory} (halloc : alloc.Separate)
    (h : load_private_keys conf alloc ctx mem = ok (NGX_OK, ctx', mem')) :
    ∃ file keys, conf.private_key_file = some file ∧ ctx' = { ctx with private_keys := some keys } ∧
      Held (load_private_key file) alloc.private_key keys mem' ∧
      ∀ addr len, Apart addr len alloc.private_key.elts 16 →
        Apart addr len alloc.private_key.data 32 → mem'.read addr len = mem.read addr len := by
  unfold load_private_keys at h
  cases hfile : conf.private_key_file with
  | none => simp [hfile] at h
  | some file =>
    simp only [hfile, bind_eq_ok_iff] at h
    obtain ⟨⟨found, mem''⟩, harray, hrest⟩ := h
    cases found with
    | none => simp at hrest
    | some keys =>
      obtain ⟨hctx, rfl⟩ : _ ∧ mem'' = mem' := by simpa using hrest
      obtain ⟨key, hload, helts, hrecord, hkey, hsame⟩ :=
        load_key_array_some halloc.private_key (fun key hk => (load_private_key_ok hk).2) harray
      exact ⟨file, keys, rfl, hctx.symm, ⟨helts, hrecord, by rw [hkey]; exact hload⟩, hsame⟩

/-- What the block that loads the public key does. -/
theorem load_public_keys_ok {conf : KeyConf} {alloc : KeyAlloc} {ctx ctx' : NoiseCtx}
    {mem mem' : Memory} (halloc : alloc.Separate)
    (h : load_public_keys conf alloc ctx mem = ok (NGX_OK, ctx', mem')) :
    (ctx' = ctx ∧ mem' = mem) ∨
    ∃ file keys, conf.public_key_file = some file ∧ ctx' = { ctx with public_keys := some keys } ∧
      Held (load_public_key file) alloc.public_key keys mem' ∧
      ∀ addr len, Apart addr len alloc.public_key.elts 16 →
        Apart addr len alloc.public_key.data 32 → mem'.read addr len = mem.read addr len := by
  unfold load_public_keys at h
  cases hfile : conf.public_key_file with
  | none =>
    simp only [hfile] at h
    cases h
    exact .inl ⟨rfl, rfl⟩
  | some file =>
    simp only [hfile, bind_eq_ok_iff] at h
    obtain ⟨⟨found, mem''⟩, harray, hrest⟩ := h
    cases found with
    | none => simp at hrest
    | some keys =>
      obtain ⟨hctx, rfl⟩ : _ ∧ mem'' = mem' := by simpa using hrest
      obtain ⟨key, hload, helts, hrecord, hkey, hsame⟩ :=
        load_key_array_some halloc.public_key (fun key hk => load_public_key_ok hk) harray
      exact .inr ⟨file, keys, rfl, hctx.symm, ⟨helts, hrecord, by rw [hkey]; exact hload⟩, hsame⟩

/-- The keys that a module has put into its `NOISE_CTX`. -/
structure Installed (conf : KeyConf) (alloc : KeyAlloc) (ctx : NoiseCtx) (mem : Memory) : Prop where
  private_keys : ∃ file keys, conf.private_key_file = some file ∧ ctx.private_keys = some keys ∧
    Held (load_private_key file) alloc.private_key keys mem
  public_keys : ∀ keys, ctx.public_keys = some keys →
    ∃ file, conf.public_key_file = some file ∧ Held (load_public_key file) alloc.public_key keys mem

theorem installed_of_load_keys {role : Role} {conf : KeyConf} {alloc : KeyAlloc} {ctx : NoiseCtx}
    {mem mem' : Memory} (halloc : alloc.Separate)
    (h : load_keys role conf alloc mem = ok (NGX_OK, ctx, mem')) : Installed conf alloc ctx mem' := by
  cases role with
  | server =>
    simp only [load_keys, noiseserver_load_keys, if_true, bind_eq_ok_iff] at h
    obtain ⟨⟨rc, ctx', mem''⟩, hprivate, hrest⟩ := h
    dsimp only at hrest
    by_cases hrc : rc = NGX_OK
    swap
    · rw [if_pos hrc] at hrest
      cases hrest
      exact absurd rfl hrc
    subst hrc
    obtain ⟨file, keys, hfile, hctx, hheld, -⟩ := load_private_keys_ok halloc hprivate
    rw [if_neg (by simp), hctx, if_pos rfl] at hrest
    obtain ⟨rfl, rfl⟩ | ⟨pfile, pkeys, hpfile, hctx', hpheld, hsame⟩ :=
      load_public_keys_ok halloc hrest
    · exact ⟨⟨file, keys, hfile, rfl, hheld⟩, by simp⟩
    · have hkept := hheld.of_apart halloc.records halloc.private_public halloc.public_private.symm
        halloc.keys hsame
      refine ⟨⟨file, keys, hfile, by rw [hctx'], hkept⟩, ?_⟩
      intro keys' hkeys'
      obtain rfl : pkeys = keys' := by simpa [hctx'] using hkeys'
      exact ⟨pfile, hpfile, hpheld⟩
  | client =>
    simp only [load_keys, proxy_load_keys] at h
    split_ifs at h with hnone
    · simp at h
    rw [bind_eq_ok_iff] at h
    obtain ⟨⟨rc, ctx', mem''⟩, hpublic, hrest⟩ := h
    dsimp only at hrest
    by_cases hrc : rc = NGX_OK
    swap
    · rw [if_pos hrc] at hrest
      cases hrest
      exact absurd rfl hrc
    subst hrc
    rw [if_neg (by simp)] at hrest
    obtain ⟨file, keys, hfile, hctx, hheld, hsame⟩ := load_private_keys_ok halloc hrest
    refine ⟨⟨file, keys, hfile, by rw [hctx], hheld⟩, ?_⟩
    obtain ⟨rfl, rfl⟩ | ⟨pfile, pkeys, hpfile, hctx', hpheld, -⟩ :=
      load_public_keys_ok halloc hpublic
    · simp [hctx]
    · have hkept := hpheld.of_apart halloc.records.symm halloc.public_private
        halloc.private_public.symm halloc.keys.symm hsame
      intro keys' hkeys'
      obtain rfl : pkeys = keys' := by simpa [hctx, hctx'] using hkeys'
      exact ⟨pfile, hpfile, hkept⟩

/-- The keys passed to noise-c are those of the key files. -/
def KeysPassed (conf : KeyConf) (obs : List Obs) : Prop :=
  (∀ key, .set_keypair_private key ∈ obs → conf.private_key_file = some (some key)) ∧
    ∀ key, .set_public_key key ∈ obs →
      ∃ file, conf.public_key_file = some file ∧ load_public_key file 32 = (NGX_OK, key)

/-- The 32 bytes of memory at the record of a key: the length, the address of the
key, and what follows the record. -/
def record_image (mem : Memory) (block : KeyBlock) : List UInt8 :=
  block.record ++ mem.read (block.elts + NGX_STR_SIZE) 16

/-- A key that looks like the record it is reached through: its length, its own
address, and the 16 bytes that are stored behind the record. -/
structure Mimics (mem : Memory) (block : KeyBlock) (key : List UInt8) : Prop where
  len : key.take 8 = le64 NOISE_PROTOCOL_CURVE25519_KEY_LEN
  data : (key.drop 8).take 8 = le64 block.data
  rest : key.drop 16 = mem.read (block.elts + NGX_STR_SIZE) 16

@[simp]
theorem length_le64 (n : Nat) : (le64 n).length = 8 := by
  simp [le64]

theorem mimics_iff {mem : Memory} {block : KeyBlock} {key : List UInt8} :
    Mimics mem block key ↔ record_image mem block = key := by
  constructor
  · rintro ⟨hlen, hdata, hrest⟩
    have hsplit : key.take 8 ++ ((key.drop 8).take 8 ++ (key.drop 8).drop 8) = key := by
      rw [List.take_append_drop, List.take_append_drop]
    rw [List.drop_drop, hlen, hdata, hrest] at hsplit
    rw [record_image, KeyBlock.record, List.append_assoc]
    exact hsplit
  · rintro rfl
    rw [record_image, KeyBlock.record, List.append_assoc]
    refine ⟨List.take_left' (by simp), ?_, ?_⟩
    · rw [List.drop_left' (by simp), List.take_left' (by simp)]
    · rw [← List.append_assoc, List.drop_left' (by simp)]

/-- Each key that noise-c asks for has 32 bytes in the protocol of the connection,
and its file mimics the record of the key. -/
structure KeysMimicRecords (N : NoiseC S) (w : Endpoint S) (conf : KeyConf) (alloc : KeyAlloc) :
    Prop where
  private_key : ∀ s, local_key_state N w = some s →
    N.dhstate_get_private_key_length s = 32 ∧
      ∃ key, conf.private_key_file = some (some key) ∧ Mimics w.mem alloc.private_key key
  public_key : ∀ key s, conf.private_key_file = some (some key) →
    remote_key_state N w (fun _ => key) = some s → N.dhstate_get_public_key_length s = 32 ∧
      ∃ file key', conf.public_key_file = some file ∧ load_public_key file 32 = (NGX_OK, key') ∧
        Mimics w.mem alloc.public_key key'

/-- Nothing has been stored over the keys. -/
def KeyAlloc.Kept (alloc : KeyAlloc) (mem mem' : Memory) : Prop :=
  ∀ block ∈ [alloc.private_key, alloc.public_key],
    mem'.read block.elts 16 = mem.read block.elts 16 ∧
      mem'.read block.data 32 = mem.read block.data 32

theorem Held.image {load : Nat → Int × List UInt8} {block : KeyBlock} {keys : KeyArray}
    {mem mem' : Memory} (h : Held load block keys mem)
    (hkept : mem'.read block.elts 16 = mem.read block.elts 16) :
    mem'.read keys.elts 32 = record_image mem' block := by
  have hsplit := mem'.read_add block.elts 16 16
  rw [hkept, h.record] at hsplit
  rw [h.elts]
  exact hsplit

/-- What is read at the elements is the key just where the key mimics its record. -/
theorem Held.read_eq_iff {load : Nat → Int × List UInt8} {block : KeyBlock} {keys : KeyArray}
    {mem mem' : Memory} {key : List UInt8} (h : Held load block keys mem)
    (hkept : mem'.read block.elts 16 = mem.read block.elts 16) (hkey : key.length = 32) (len : Nat) :
    mem'.read keys.elts len = key ↔ len = 32 ∧ Mimics mem' block key := by
  constructor
  · intro hread
    have hlen : len = 32 := by
      rw [← mem'.length_read keys.elts len, hread, hkey]
    subst hlen
    rw [h.image hkept] at hread
    exact ⟨rfl, mimics_iff.mpr hread⟩
  · rintro ⟨rfl, hmimics⟩
    rw [h.image hkept]
    exact mimics_iff.mp hmimics

/-- The local key counts only where noise-c asks for it. -/
theorem remote_key_state_congr {N : NoiseC S} {w : Endpoint S} {key key' : S → List UInt8}
    (h : ∀ s, local_key_state N w = some s → key s = key' s) :
    remote_key_state N w key = remote_key_state N w key' := by
  cases hstate : prologue_state N w with
  | none => simp [remote_key_state, hstate]
  | some s =>
    by_cases hneeds : N.handshakestate_needs_local_keypair s = true
    · have hkey := h s (by simp [local_key_state, hstate, hneeds])
      simp [remote_key_state, hstate, hkey]
    · simp [remote_key_state, hstate, hneeds]

/-- On both paths noise-c is given the memory at the elements of the key array, and
that is the record of the key, not the key. -/
theorem keysPassed_iff (N : NoiseC S) (role : Role) {conf : KeyConf} {alloc : KeyAlloc}
    {ctx : NoiseCtx} {mem mem' : Memory} (halloc : alloc.Separate)
    (hload : load_keys role conf alloc mem = ok (NGX_OK, ctx, mem')) {w w' : Endpoint S}
    {rc : Int} {obs : List Obs} (hctx : w.nc.noise_ctx = ctx) (hkept : alloc.Kept mem' w.mem)
    (hinit : init_handshake N w = ok (rc, w')) (hobs : w'.trace = obs ++ w.trace) :
    KeysPassed conf obs ↔ KeysMimicRecords N w conf alloc := by
  obtain ⟨⟨file, keys, hfile, hkeys, hheld⟩, hpublic⟩ := installed_of_load_keys halloc hload
  have hpassed := init_handshake_obs hinit hobs
  obtain ⟨rfl, hkey⟩ := load_private_key_ok hheld.key
  generalize mem'.read alloc.private_key.data 32 = key at hfile hheld hkey
  have hlocal : ∀ s, local_key N w s = key ↔
      N.dhstate_get_private_key_length s = 32 ∧ Mimics w.mem alloc.private_key key := by
    intro s
    rw [local_key, hctx, hkeys]
    exact hheld.read_eq_iff (hkept _ (by simp)).1 hkey _
  have hprivate : (∀ key, .set_keypair_private key ∈ obs → conf.private_key_file = some (some key)) ↔
      ∀ s, local_key_state N w = some s → local_key N w s = key := by
    constructor
    · intro h s hs
      have hconf := h _ ((hpassed _).1.mpr ⟨s, hs, rfl⟩)
      rw [hfile] at hconf
      exact (Option.some.inj (Option.some.inj hconf)).symm
    · intro h key' hkey'
      obtain ⟨s, hs, rfl⟩ := (hpassed key').1.mp hkey'
      rw [hfile, h s hs]
  have hremote : ∀ s, remote_key_state N w (local_key N w) = some s →
      ∃ file key', conf.public_key_file = some file ∧ load_public_key file 32 = (NGX_OK, key') ∧
        (remote_key N w s = key' ↔
          N.dhstate_get_public_key_length s = 32 ∧ Mimics w.mem alloc.public_key key') := by
    intro s hs
    obtain ⟨keys', hkeys'⟩ := Option.ne_none_iff_exists'.mp ((hpassed []).2.2 s hs)
    obtain ⟨file', hfile', hheld'⟩ := hpublic keys' (by rw [← hctx]; exact hkeys')
    refine ⟨file', _, hfile', hheld'.key, ?_⟩
    rw [remote_key, hkeys']
    exact hheld'.read_eq_iff (hkept _ (by simp)).1 (by simp) _
  constructor
  · rintro ⟨hprivate', hpublic'⟩
    have hsame := hprivate.mp hprivate'
    refine ⟨fun s hs => ⟨((hlocal s).mp (hsame s hs)).1, key, hfile,
      ((hlocal s).mp (hsame s hs)).2⟩, ?_⟩
    intro key' s hkey' hs
    obtain rfl : key = key' := by simpa [hfile] using hkey'
    rw [← remote_key_state_congr hsame] at hs
    obtain ⟨file', key', hfile', hload', hiff⟩ := hremote s hs
    obtain ⟨file'', hfile'', hload''⟩ := hpublic' _ ((hpassed _).2.1.mpr ⟨s, hs, rfl⟩)
    obtain rfl : file' = file'' := by simpa [hfile'] using hfile''
    have hpassed' : remote_key N w s = key' := by
      rw [hload'] at hload''
      exact (congrArg Prod.snd hload'').symm
    exact ⟨(hiff.mp hpassed').1, file', key', hfile', hload', (hiff.mp hpassed').2⟩
  · rintro ⟨hprivate', hpublic'⟩
    have hsame : ∀ s, local_key_state N w = some s → local_key N w s = key := by
      intro s hs
      obtain ⟨hlen, key', hkey', hmimics⟩ := hprivate' s hs
      obtain rfl : key = key' := by simpa [hfile] using hkey'
      exact (hlocal s).mpr ⟨hlen, hmimics⟩
    refine ⟨hprivate.mpr hsame, ?_⟩
    intro key' hkey'
    obtain ⟨s, hs, rfl⟩ := (hpassed key').2.1.mp hkey'
    obtain ⟨file', key', hfile', hload', hiff⟩ := hremote s hs
    rw [remote_key_state_congr hsame] at hs
    obtain ⟨hlen, file'', key'', hfile'', hload'', hmimics⟩ := hpublic' key s hfile hs
    obtain rfl : file' = file'' := by simpa [hfile'] using hfile''
    obtain rfl : key' = key'' := by simpa [hload'] using hload''
    exact ⟨file', hfile', by rw [hiff.mpr ⟨hlen, hmimics⟩, hload']⟩

/-- The records are at `0x1000` and `0x2000`, and each key is right behind its record. -/
def key_alloc : KeyAlloc := ⟨⟨0x1000, 0x1010⟩, ⟨0x2000, 0x2010⟩⟩

theorem separate_key_alloc : key_alloc.Separate := by
  constructor <;> decide

/-- The memory behind the start, with a key loaded into a block. -/
def key_mem (block : KeyBlock) (key : List UInt8) (mem : Memory) : Memory :=
  (mem.write block.elts block.record).write block.data key

/-- A server connection with these keys, on a header with this pattern. -/
def key_server (ctx : NoiseCtx) (mem : Memory) (pattern_id : UInt8) : Endpoint Pattern :=
  .create ctx NOISE_PROTOCOL_PAYLOAD_SIZE .server false ⟨.responder, 0⟩
    { proxy_prologue with header := { proxy_prologue.header with pattern_id } } mem (.quiet [] false)

/-- noise-c for the pattern KK up to the start of the handshake: it asks for both keys. -/
def pattern_kk : NoiseC Pattern :=
  { pattern_xx with handshakestate_needs_remote_public_key := fun _ => true }

/-- A key that passes: it holds its own length and its own address, twice. -/
def own_record (block : KeyBlock) : List UInt8 := block.record ++ block.record

/-- Files that hold such keys. -/
def own_conf : KeyConf :=
  ⟨some (some (own_record key_alloc.private_key)),
    some (some (Base64.encode (own_record key_alloc.public_key)))⟩

/-- The memory of a server that has loaded them. -/
def own_mem : Memory :=
  key_mem key_alloc.public_key (own_record key_alloc.public_key)
    (key_mem key_alloc.private_key (own_record key_alloc.private_key) ⟨fun _ => 0, []⟩)

/-- The server behind the first header of a peer that asks for the pattern KK. -/
def own_server : Endpoint Pattern := key_server ⟨some ⟨0x1000, 1⟩, some ⟨0x2000, 1⟩⟩ own_mem 11

/-- What it passes to noise-c, newest first. -/
def own_obs : List Obs :=
  [.set_public_key (own_record key_alloc.public_key),
    .set_keypair_private (own_record key_alloc.private_key),
    .set_prologue own_server.prologue.bytes]

theorem keysPassed_of_own_records :
    load_keys .server own_conf key_alloc ⟨fun _ => 0, []⟩ =
        ok (NGX_OK, own_server.nc.noise_ctx, own_mem) ∧
      ∃ w', init_handshake pattern_kk own_server = ok (NGX_OK, w') ∧
        w'.trace = own_obs ++ own_server.trace ∧ KeysPassed own_conf own_obs := by
  refine ⟨rfl, _, rfl, rfl, ?_⟩
  refine (keysPassed_iff pattern_kk .server separate_key_alloc (w := own_server)
    (show load_keys .server own_conf key_alloc ⟨fun _ => 0, []⟩ =
      ok (NGX_OK, own_server.nc.noise_ctx, own_mem) from rfl)
    rfl ?_ rfl rfl).mpr ?_
  · exact fun block hblock => ⟨rfl, rfl⟩
  · constructor
    · intro s hs
      exact ⟨rfl, _, rfl, by decide, by decide, by decide⟩
    · intro key s hkey hs
      exact ⟨rfl, _, own_record key_alloc.public_key, rfl, by decide, by decide, by decide, by decide⟩

/-- The configuration of a server with a private key of 32 equal bytes. -/
def plain_conf : KeyConf := ⟨some (some (List.replicate 32 7)), none⟩

/-- Its memory, with the key loaded. -/
def plain_mem : Memory := key_mem key_alloc.private_key (List.replicate 32 7) ⟨fun _ => 0, []⟩

/-- A key of 32 equal bytes is not what noise-c gets. -/
theorem not_keysPassed_of_plain_key :
    ¬ ∀ (conf : KeyConf) (alloc : KeyAlloc) (ctx : NoiseCtx) (mem mem' : Memory)
      (w w' : Endpoint Pattern) (rc : Int) (obs : List Obs), alloc.Separate →
      load_keys .server conf alloc mem = ok (NGX_OK, ctx, mem') → w.nc.noise_ctx = ctx →
      w.mem = mem' → init_handshake pattern_xx w = ok (rc, w') → w'.trace = obs ++ w.trace →
      KeysPassed conf obs := by
  intro h
  have hpassed := h plain_conf key_alloc ⟨some ⟨0x1000, 1⟩, none⟩ ⟨fun _ => 0, []⟩ plain_mem
    (key_server ⟨some ⟨0x1000, 1⟩, none⟩ plain_mem 9) _ _
    [.set_keypair_private (plain_mem.read 0x1000 32), .set_prologue proxy_prologue.bytes]
    separate_key_alloc rfl rfl rfl rfl rfl
  have hkey := hpassed.1 (plain_mem.read 0x1000 32) (by simp)
  revert hkey
  decide

end ngx_noise_protocol
