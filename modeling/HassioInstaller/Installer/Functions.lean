import HassioInstaller.Installer.Command

/-! # The functions of `installer.sh`

Each shell function as the script of what it runs, in the order of the source. A status that the
source keeps in `$?` is the value bound from the command that set it. `STAGE` is left out: nothing
reads it, and the one place where assigning it matters is `stage`. -/

namespace HassioInstaller.Installer
open Text

/-- The last status of a plain assignment such as `STAGE="${STAGE}+..."`, which overwrites `$?`. -/
def stage : Sh Nat := .ret 0

/-- `_dialog_menu title content`, with its status and the tag it prints. -/
def dialogMenu (d : Menu) (content : String) : Sh Answer := .call (.menu d content) .ret

/-- `isok $1 $2 $3`; `action` is what it does on `$2 = reboot`, which does not come back. -/
def isokWith (st : Nat) (action : Option (Sh PUnit)) : Sh Nat :=
  if st = 0 then do
    exec (.log "Previous command finished successfully.")
    return 0
  else do
    exec (.log "Previous command exited with 1.")
    match action with
    | some act => do
      exec (.log "Reboot called on failed command.")
      act
      return 1
    | none => return 1

/-- `isok $?`. -/
def isok (st : Nat) : Sh Nat := isokWith st none

/-- What `eval $(echo $type)` is about to run is skipped for these file systems. -/
def skipped (type : String) : Bool :=
  ["hassos", "iso9660", "squashfs", "alpine"].any fun s => matchesIn (.lit s) type

/-- The characters of a line as `read` takes them without `-r`: a backslash is dropped, and the
character after it is marked as one without a meaning. -/
def unescape : List Char → List (Char × Bool)
  | [] => []
  | c :: cs =>
    if c = '\\' then
      match cs with
      | [] => []
      | d :: ds => (d, true) :: unescape ds
    else (c, false) :: unescape cs

/-- `IFS=': ' read part type` on one line of `blkid`. No line ends in a backslash. -/
def readPartType (line : String) : String × String :=
  let isSpace := fun c => c = (' ', false)
  let isSep := fun c => c = (':', false) || c = (' ', false)
  let cs := (unescape line.toList).dropWhile isSpace
  let rest := (cs.dropWhile fun c => !isSep c).dropWhile isSpace
  let rest := match rest with
    | (':', false) :: rest => rest
    | rest => rest
  let type := ((rest.dropWhile isSpace).reverse.dropWhile isSpace).reverse
  (String.ofList ((cs.takeWhile fun c => !isSep c).map Prod.fst), String.ofList (type.map Prod.fst))

/-- The `n`GB shown for a number of sectors, `$(expr n / 2097152)GB`. -/
def gigabytes (sectors : String) : String :=
  match (words sectors).head?.bind number with
  | some n => toString (n / 2097152) ++ "GB"
  | none => "GB"

/-- The variables of `_upload_to_flashdrive` that outlive a line of `blkid`. -/
structure Scan where
  TYPE : String
  parttype : List (String × String)
  parts : List String

/-- The second half of a pass of the `blkid` loop: the mount of `part` answered `ec`. A partition
that can be mounted and written is offered. -/
def probe (env : Env) (s : Scan) (part : String) (ec : Nat) : Sh Scan :=
  if ec ≠ 0 then return s else do
    let touched ← status (.touch ("/mnt/test." ++ env.pid))
    if touched ≠ 0 then do
      exec .umount
      return s
    else do
      exec (.run ("rm -rf /mnt/test." ++ env.pid))
      exec .umount
      let rootpath ← output (.run ("dirname $(find -L /sys/block -maxdepth 2 -type d -name " ++
        basename part ++ ")"))
      let sectors ← output (.cat (rootpath ++ "/" ++ basename part ++ "/size"))
      let vendor ← output (.cat (rootpath ++ "/device/vendor"))
      let model ← output (.cat (rootpath ++ "/device/model"))
      let entry := part ++ "|" ++ gigabytes sectors ++ " (" ++ s.TYPE ++ ") " ++ vendor ++ " " ++
        model
      return { s with
        parttype := (part, s.TYPE) :: s.parttype
        parts := s.parts ++ [if s.parts = [] then entry else "|" ++ entry] }

/-- A bad NTFS partition (the mount answered 13) is repaired and mounted again. -/
def remount (TYPE part : String) (ec : Nat) : Sh Nat :=
  if ec = 13 ∧ TYPE = "ntfs-3g" then do
    exec (.run ("dialog --prgbox \"echo Found bad NTFS partition, trying to fix...; ntfsfix " ++
      part ++ "\" 20 55"))
    exec (.run "sleep 1")
    status (.mountType TYPE part)
  else return ec

/-- One pass of the `blkid` loop, for the device `part` and the rest `type` of its line. -/
def scanPart (env : Env) (s : Scan) (part type : String) : Sh Scan :=
  if skipped type then return s else do
    let evaled ← output (.evalWords type s.TYPE)
    let s := { s with TYPE := if evaled = "ntfs" then "ntfs-3g" else evaled }
    let ec ← status (.mountType s.TYPE part)
    let ec ← remount s.TYPE part ec
    probe env s part ec

def scanLine (env : Env) (s : Scan) (line : String) : Sh Scan :=
  scanPart env s (readPartType line).1 (readPartType line).2

/-- `_upload_to_flashdrive`. The type map is kept over re-scans, the list of partitions is not. -/
def uploadToFlashdrive (env : Env) : Sh PUnit :=
  .loop (fun s => do
    let listing ← output .blkid
    let s ← (lines listing).foldlM (scanLine env) { s with parts := [] }
    let parts := s.parts ++
      [if s.parts = [] then "r|No drives found. Re-scan drives" else "|r|Re-scan drives"]
    let r ← dialogMenu .flashdrive (" ".intercalate parts)
    let st ← isok r.status
    if st ≠ 0 then return .inl s
    else if r.out = "r" then return .inl s
    else do
      exec (.mountType ((s.parttype.lookup r.out).getD "") r.out)
      let fname ← output (.run "date +\"debug.%Y-%m-%dT%H%M%S.log\"")
      exec (.copyLog fname r.out)
      exec .umount
      exec (.msgbox (.fileSaved fname))
      return .inr ⟨⟩) (Scan.mk "" [] []) .ret

/-- `grep -E '^Disk /dev.*:'`. -/
def isDiskLine (line : String) : Bool :=
  "Disk /dev".toList.isPrefixOf line.toList && (line.toList.drop 9).contains ':'

/-- `/dev/(sd[a-z]|mmcblk[0-9]|nvme[0-9]+n[0-9]+)`. -/
def diskPattern : Pattern :=
  .lit "/dev/" * (.lit "sd" * Pattern.lower + .lit "mmcblk" * Pattern.digit +
    .lit "nvme" * Pattern.plus .digit * .lit "n" * Pattern.plus .digit)

/-- The drive paths taken from what `fdisk -l` prints. -/
def fdiskDisks (listing : String) : List String :=
  ((lines listing).filter isDiskLine).flatMap (grepO diskPattern)

/-- `until [ $count -eq 3 ] || $alive`: is pastebin.com reachable? -/
def pingPastebin : Sh Bool :=
  .loop (fun (count, alive) =>
    if count = 3 ∨ alive then return .inr alive else do
      exec (.log ("Try: " ++ toString count))
      let st ← status (.run "ping -c1 pastebin.com > /dev/null 2>&1")
      exec (.run "sleep 1")
      return .inl (count + 1, st == 0)) ((0 : Nat), false) .ret

/-- One section of `/debug.log`: what `cmd` prints, between a start and an end line. -/
def collectSection (what : String) (cmd : String) : Sh PUnit := do
  exec (.run ("echo \"=== START " ++ what ++ " ===\" >> /debug.log"))
  exec (.run (cmd ++ " >> /debug.log"))
  exec (.run ("echo -e \"=== END " ++ what ++ " ===\\n\" >> /debug.log"))

/-- What the log collection does with the answer of the pastebin API. -/
def shareLog (env : Env) (url : String) : Sh PUnit :=
  if matchesIn (.lit "https") url then do
    exec (.log ("URL For log bundle created: " ++ url))
    exec (.msgbox (.logUrl url))
  else if matchesIn (.lit "Post limit") url then do
    exec (.msgbox .insertFlash)
    uploadToFlashdrive env
  else do
    exec (.log ("Unable to generate pastebin URL! Variable is: " ++ url))
    exec (.msgbox (.noUrl url))

/-- Upload through the pastebin API, or to a flash drive once its limit is reached. -/
def uploadLog (env : Env) : Sh PUnit := do
  exec (.log "Trying to upload log bundle to pastebin")
  let url ← output (.run ("curl -s --data-urlencode 'api_paste_code@/debug.log' " ++
    "\"https://pastebin.com/api/api_post.php\" | tee -a /debug.log"))
  shareLog env (if env.FAKE_URL then "Pastebin Post limit reached" else url)

/-- `_collectlogs`. -/
def collectlogs (env : Env) : Sh PUnit := do
  exec (.log "Collecting logs...")
  exec (.infobox "Collecting logs, please wait...")
  let listing ← output .fdiskList
  let disks := "\n".intercalate (fdiskDisks listing)
  exec (.log "Checking internet connection...")
  let alive ← pingPastebin
  Script.each ["env", "export", "ip a", "ip r", "/etc/init.d/networking status", "fdisk -l",
      "hdparm -I " ++ disks] fun i => do
    exec (.log ("Collecting output from command " ++ i))
    collectSection i i
  let netStates ← output (.glob "/sys/class/net/*/operstate")
  let sdSizes ← output (.glob "/sys/block/sd*/size")
  let nvmSizes ← output (.glob "/sys/block/nvm*/size")
  let sdRotational ← output (.glob "/sys/block/sd*/queue/rotational")
  let nvmRotational ← output (.glob "/sys/block/nvm*/queue/rotational")
  let files := ["/proc/cpuinfo", "/proc/meminfo"] ++ words netStates ++ words sdSizes ++
    words nvmSizes ++ words sdRotational ++ words nvmRotational ++ ["/var/log/messages"]
  Script.each files fun i => do
    let st ← status (.isFile i)
    Script.when (st == 0) do
      exec (.log ("Collecting output from file " ++ i))
      collectSection i ("cat " ++ i)
  if alive then uploadLog env
  else do
    exec (.log "Internet connection does not appear to be established in order to upload logs")
    exec (.msgbox .noInternet)

/-- The countdown of `_reboot`, and the reboot that only a real boot of the image makes. -/
def countdown (env : Env) (msg : String) : Sh PUnit := do
  Script.each ["5", "4", "3", "2", "1"] fun i => do
    exec (.infobox (msg ++ "Will reboot in: " ++ i))
    exec (.run "sleep 1")
  if env.HOSTNAME = "hassio-installer" then do
    exec .reboot
    .exit
  else .exit

/-- `_reboot msg`. It does not return. -/
def reboot (env : Env) (msg : String) : Sh PUnit := do
  exec (.log "Reboot requested.")
  Script.when env.DEBUG do
    exec (.log "Collecting logs before reboot due to DEBUG=true")
    collectlogs env
  countdown env (if msg = "" then "" else msg ++ "\n")

/-- `isok $? reboot msg`. -/
def isokReboot (env : Env) (st : Nat) (msg : String) : Sh Nat :=
  isokWith st (some (if env.HOSTNAME = "hassio-installer" then reboot env msg else .exit))

/-- `case $opt` of `_exit`: only "Restart Installer" ends the script. -/
def exitChoice (env : Env) (opt : String) : Sh PUnit :=
  if opt = "1" then exec .reboot
  else if opt = "2" then do
    collectlogs env
    exec .reboot
  else if opt = "3" then do
    exec (.run "touch /tmp/_reload_installer")
    exec .rmPidfile
    .exit
  else exec .reboot

/-- `_exit`, the handler of SIGINT. -/
def exit (env : Env) : Sh PUnit := do
  let opt ← output .exitMenu
  exitChoice env opt

/-- `_gitping`. -/
def gitping : Sh Nat := do
  exec (.log "Testing network connection by reaching github.com")
  exec (.infobox "Testing network connection...")
  let st ← status .gitPing
  if st = 0 then do
    exec (.log "Successfully tested network connection by reaching github.com")
    return 0
  else return 1

/-- `_trydhcp int`. -/
def trydhcp (int : String) : Sh Nat := do
  exec (.run ("udhcpc -A 5 -T 5 -t 2 -n -S -p /tmp/dhcp.pid -i " ++ int ++ " &>/dev/null"))
  gitping

/-- The wired interfaces, each of which is also added to `/etc/network/interfaces`. -/
def wiredInterfaces : List String → Sh (List String)
  | [] => return []
  | i :: is => do
    let int := basename i
    let wireless ← status (.isDir (i ++ "/wireless"))
    if wireless = 0 ∨ int = "lo" then wiredInterfaces is
    else do
      exec (.log ("Adding local interface " ++ int))
      exec (.run ("echo -e \"auto " ++ int ++ "\\n\" >> /etc/network/interfaces"))
      let rest ← wiredInterfaces is
      return int :: rest

/-- Attempt DHCP on one interface after the other. -/
def tryInterfaces : List String → Sh Bool
  | [] => return false
  | int :: is => do
    exec (.log "Attempting DHCP on eth0")
    exec (.infobox ("Attempting DHCP on " ++ int))
    let st ← trydhcp int
    if st = 0 then return true else tryInterfaces is

/-- `_checkconnection`. It returns only when connected. -/
def checkconnection (env : Env) : Sh PUnit := do
  exec (.log "Networking service not started, starting")
  exec (.infobox "Establishing network...")
  let nets ← output (.glob "/sys/class/net/*")
  let INTERFACES ← wiredInterfaces (words nets)
  exec (.run "service networking start > /dev/null 2>&1")
  let connected ← tryInterfaces INTERFACES
  if connected then return ⟨⟩
  else do
    exec (.msgbox .networkFailed)
    reboot env ""

/-- The numbers `parted print | awk '{print $1}' | grep -Eo '[0-9]+'` yields. -/
def partNumbers (table : String) : List String :=
  (lines table).flatMap fun line => grepO (Pattern.plus .digit) (firstWord line)

/-- `_quick_erase`. -/
def quickErase (DISK : String) : Sh PUnit := do
  let table ← output (.partedPrint DISK)
  Script.each (partNumbers table) fun part => do
    exec (.log ("Erasing partition " ++ part ++ " of disk " ++ DISK))
    exec (.partedRm DISK part)

/-- `_full_erase msg`. -/
def fullErase (DISK msg : String) : Sh PUnit := do
  exec (.log ("Erasing drive " ++ DISK ++ " by writing zeroes to it..."))
  let size ← output (.cat ("/sys/block/" ++ basename DISK ++ "/size"))
  exec (.zeroFill DISK size msg)

/-- The entries of the two fallback menus. -/
def fallbackEntries : String :=
  "1|Fallback to Writing Zeroes|2|Fallback to Quick Erase|3|Abort operation and reboot"

/-- `_secure_erase` on an NVMe drive. -/
def secureEraseNvme (env : Env) (DISK : String) : Sh Nat := do
  exec (.log "Trying to Secure Erase NVMe Drive")
  let r ← dialogMenu .nvmeFallback fallbackEntries
  exec (.log ("Selected option: " ++ r.out ++ ", exit code " ++ toString r.status))
  if r.out = "1" then return 99
  else if r.out = "2" then do
    quickErase DISK
    return 0
  else do
    reboot env (if r.out = "3" then "Aborted NVMe Full Erase Operation" else "Unknown selection")
    -- not reached, in the source "strictly for future implementation"
    let st ← status (.nvmeIdCtrl DISK)
    let ok ← isok st
    if ok = 0 then return 3 else status (.nvmeSanitize DISK)

/-- The end of `_secure_erase` on an SSD, once it is not frozen. `isok $?` comes after an assignment
of `STAGE`, and what `--security-erase` answers goes to the log only. -/
def secureEraseSsd (DISK : String) : Sh Nat := do
  exec (.log "Secure Erasing SSD, not presenting Dialog window at the moment")
  exec (.run "clear")
  exec (.securitySetPass DISK)
  let st ← stage
  let prepared ← isok st
  if prepared ≠ 0 then return 1
  else do
    let erased ← status (.securityErase DISK)
    exec (.log ("Secure Erase exited with: " ++ toString erased))
    exec (.run "echo \"Press ENTER to continue\"")
    exec (.run "read")
    exec (.run "clear")
    return 0

/-- `_secure_erase`. -/
def secureErase (env : Env) (DISK : String) : Sh Nat :=
  if matchesIn (.lit "nvme") DISK then secureEraseNvme env DISK
  else do
    exec (.log "Trying to Secure Erase SSD")
    let frozen ← status (.hdparmFrozen DISK)
    let st ← isok frozen
    if st = 0 then secureEraseSsd DISK
    else do
      exec (.log "SSD Is frozen, trying to unfreeze it by placing system to suspend.")
      let r ← status (.yesno .unfreeze)
      let agreed ← isok r
      if agreed = 0 then do
        exec (.log "Placing system to suspend")
        exec (.run "echo mem > /sys/power/state")
        exec (.run "sleep 5")
        exec (.log "System resumed from suspend")
        let frozen ← status (.hdparmFrozen DISK)
        let st ← isok frozen
        if st = 0 then secureEraseSsd DISK
        else do
          exec (.log "SSD Unfreeze appears unsuccessful, asking fallback methods")
          let r ← dialogMenu .ssdFallback fallbackEntries
          exec (.log ("Selected option " ++ r.out ++ ", exit code: " ++ toString r.status))
          if r.out = "1" then return 1
          else if r.out = "2" then do
            quickErase DISK
            return 0
          else do
            reboot env
              (if r.out = "3" then "Aborted SSD Full Erase Operation" else "Uknown selection")
            secureEraseSsd DISK
      else do
        exec (.log "User did not agree with proposed option to unfreeze SSD, will reboot")
        reboot env "SSD Unfreeze aborted."
        secureEraseSsd DISK

/-- The loop over the drives. An entry goes behind a separator, or takes the place of what there is
where the test finds that empty. -/
def diskEntries : List String → String → Sh String
  | [], disks => return disks
  | disk :: rest, disks => do
    let sectors ← output (.cat ("/sys/block/" ++ basename disk ++ "/size"))
    let model ← output (.cat ("/sys/block/" ++ basename disk ++ "/device/model"))
    let entry := disk ++ "|" ++ model ++ " (" ++ gigabytes sectors ++ ")"
    let empty ← status (.testEmpty disks)
    exec (.log ("Obtained disk " ++ model ++ ", size: " ++ gigabytes sectors ++ ", path: " ++ disk))
    diskEntries rest (if empty = 0 then entry else disks ++ "|" ++ entry)

/-- `_get_disks`, with what it prints. -/
def getDisks : Sh String := do
  let listing ← output .fdiskList
  diskEntries (fdiskDisks listing) ""

/-- `[ -f $pidfile ] && [ -d /proc/$(cat $pidfile) ]`, three commands one after the other. -/
def pidfileAlive : Sh Bool := do
  let st ← status .pidfileExists
  if st = 0 then do
    let pid ← output .catPidfile
    let st ← status (.procExists pid)
    return st == 0
  else return false

/-- The signals `_kill` sends, until the process is gone. -/
def killLoop (pid : String) : List Nat → Sh PUnit
  | [] => return ⟨⟩
  | i :: is => do
    exec (.run ("echo -e \"Killing PID " ++ pid ++ "\""))
    exec (.kill (if i > 3 then 9 else 15) pid)
    exec (.run "sleep 1")
    let st ← status (.procExists pid)
    if st ≠ 0 then return ⟨⟩ else killLoop pid is

/-- `_kill`. -/
def kill : Sh PUnit := do
  let alive ← pidfileAlive
  if alive then do
    let pid ← output .catPidfile
    killLoop pid [1, 2, 3, 4]
    exec .rmPidfile
  else do
    exec (.run "echo \"Nothing to kill\"")
    exec .rmPidfile

end HassioInstaller.Installer
