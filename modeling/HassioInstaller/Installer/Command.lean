import HassioInstaller.Script.Logic
import HassioInstaller.Text

/-! # The commands of `installer.sh`

What the installer asks of the outside: its dialogs with their texts, the commands that read or
write a drive, the pidfile, and the rest by their command lines (`Cmd.run`). Every command is
answered by an exit status and what it prints on standard output. -/

namespace HassioInstaller

/-- Exit status and standard output, the latter without its trailing newlines as `$(...)` gives it. -/
structure Answer where
  status : Nat
  out : String
  deriving DecidableEq, Repr

/-- `$?` is 0. -/
abbrev Answer.ok (r : Answer) : Prop := r.status = 0

/-- The variables a run starts with. `.profile` exports the switches as `true` or `false`; `pid` is
the number of the shell, `$$`. -/
structure Env where
  HOSTNAME : String
  DEBUG : Bool
  FAKE_URL : Bool
  FAKE_IMAGE : Bool
  pid : String

/-- The questions asked with `dialog --yesno`. -/
inductive YesNo
  | welcome
  | warning (disk : String)
  | unfreeze
  deriving DecidableEq, Repr

def YesNo.text : YesNo → String
  | .welcome => "Welcome to Home Assistant OS Installer.\n\nThis tool will install Home Assistant " ++
      "OS onto your drive.\nPlease make sure to select the correct drive for installation, otherwise " ++
      "unsexpected consequences may occur.\nWe require internet connection during installation so " ++
      "make sure your device is connected to internet.\n\nSelect Yes below to continue with " ++
      "installation progress"
  | .warning disk => "WARNING\nSelected drive (" ++ disk ++ ") contains data. If you choose to " ++
      "continue data on drive will be erased!"
  | .unfreeze => "SSD Appears to be frozen. In order to unfreeze it, i will place system to " ++
      "suspend.\nOnce suspended, press any key to resume and check again."

/-- The menus shown by `_dialog_menu`. -/
inductive Menu
  | version
  | drive
  | erase
  | nvmeFallback
  | ssdFallback
  | flashdrive
  deriving DecidableEq, Repr

def Menu.title : Menu → String
  | .version => "Select which OS version to install"
  | .drive => "Select which drive to write"
  | .erase => "Select how would you like to erase the drive. Recommended is Full Erase which will " ++
      "completely zero the drive but depending on your drive size and/or speed it may take some " ++
      "time."
  | .nvmeFallback => "NVMe Sanitize not yet implemented. Select an option."
  | .ssdFallback => "Failed to unfreeze SSD. Please select option below."
  | .flashdrive => "Following drives are detected as writable.\nPlease select where to upload logs"

/-- The messages shown by `_dialog_msg`. -/
inductive Msg
  | logUrl (url : String)
  | insertFlash
  | noUrl (url : String)
  | noInternet
  | fileSaved (fname : String)
  | networkFailed
  /-- The success report; the text differs in debug mode. -/
  | success (debug : Bool)
  | failure
  deriving DecidableEq, Repr

def Msg.text : Msg → String
  | .logUrl url => "URL for debug log is: " ++ url ++ "\nPlease write down this URL as it is since " ++
      "it's case sensitive or take a screenshot and note when reporting an issue."
  | .insertFlash => "Unable to upload log to Pastebin due to reached limit.\nPlease insert flash " ++
      "drive where to save the log and press ENTER."
  | .noUrl url => "ERROR!\nUnable to generate pastebin URL. Message from API is: " ++ url ++
      "\nLog is saved to /debug.log. Please extract it and post it when reporting a new issue"
  | .noInternet => "Internet connection does not appear to be established.\nLog is saved in " ++
      "/debug.log. Please extract it and post it when reporting a new issue"
  | .fileSaved fname => "File saved as " ++ fname ++ ". System will now reboot."
  | .networkFailed => "Network setup failed. Please make sure you have the Ethernet cable plugged " ++
      "in.\nWireless setup currently unsupported."
  | .success true => "Installation completed successfully.\nUpon pressing ENTER, logs will be " ++
      "collected. Please write down the URL as-is.\nURL is case sensitive and will not be valid if " ++
      "not correctly copied."
  | .success false => "Installation completed successfully.\nRemove installation media and press " ++
      "enter to reboot."
  | .failure => "Installation failed!\nPlease try again or use another method to install.\n\nLogs " ++
      "will be collected and automatically uploaded, please share the link if you're opening GitHub " ++
      "Issue."

/-- The commands the installer runs. A pipeline whose parts the script does not look at one by one
is one command. -/
inductive Cmd
  /-- `l`, the system log. -/
  | log (text : String)
  /-- A command with no part in what is proved here, by its command line. -/
  | run (line : String)
  | yesno (d : YesNo)
  /-- `_dialog_menu title content`, the content being the entries separated by `|`. -/
  | menu (d : Menu) (content : String)
  /-- The menu of `_exit`. -/
  | exitMenu
  | msgbox (d : Msg)
  | infobox (text : String)
  | reboot
  /-- The tests `[ -f path ]`, `[ -d path ]` and `[ -b path ]`. -/
  | isFile (path : String)
  | isDir (path : String)
  | isBlock (path : String)
  /-- `[ -z ${disks[@]} ]`, the array holding the one text `disks` or nothing. The expansion is not
  quoted, so the words of the text are so many arguments. -/
  | testEmpty (disks : String)
  | cat (path : String)
  /-- Pathname expansion; the words it yields are what is printed. -/
  | glob (pattern : String)
  | fdiskList
  /-- `git ls-remote --tags`, printing the tags or, in `_gitping`, for its status alone. -/
  | gitTags
  | gitPing
  /-- `ls /sys/block/D/D*`: has the drive a partition node? -/
  | lsPartitions (disk : String)
  | partedPrint (disk : String)
  | partedRm (disk part : String)
  /-- `dd if=/dev/zero | pv -ns bytes | dd of=disk`, with its gauge. -/
  | zeroFill (disk size msg : String)
  /-- `wget -qO - url | unxz -c | pv -ns 6442450944 | dd of=disk iflag=fullblock`, with its gauge. -/
  | writeImage (url disk : String)
  /-- `hdparm -I disk | grep -qE 'not.*frozen'`. -/
  | hdparmFrozen (disk : String)
  | securitySetPass (disk : String)
  | securityErase (disk : String)
  | nvmeIdCtrl (disk : String)
  | nvmeSanitize (disk : String)
  | partprobe
  /-- `mount dev /mnt`. -/
  | mount (dev : String)
  /-- `grep -q "Home Assistant" /mnt/etc/os-release`. -/
  | grepMarker
  | umount
  | blkid
  /-- `eval $(echo words)`; prints the value of `TYPE` afterwards, `old` being its value before. The
  commands in the words that it runs as well are those of `Bash.runs`. -/
  | evalWords (words old : String)
  /-- `mount -t fstype part /mnt`. -/
  | mountType (fstype part : String)
  | touch (path : String)
  /-- `pv /debug.log | cat > /mnt/fname`, with its gauge. -/
  | copyLog (fname part : String)
  /-- `[ -f $pidfile ]`. -/
  | pidfileExists
  | catPidfile
  /-- `[ -d /proc/pid ]`. -/
  | procExists (pid : String)
  /-- `echo "ERROR! One instance of installer is already running. Kill with $0 --kill or wait until
  it's completed"`. -/
  | alreadyRunning
  /-- `echo $$ > $pidfile`. -/
  | writePidfile (pid : String)
  | rmPidfile
  | kill (signal : Nat) (pid : String)
  deriving DecidableEq, Repr

namespace Cmd

/-- The drive a destructive command acts on. -/
def target : Cmd → Option String
  | .partedRm disk _ | .zeroFill disk .. | .writeImage _ disk | .securitySetPass disk
  | .securityErase disk => some disk
  | _ => none

/-- `parted rm`, `dd of=`, `hdparm --security-set-pass` and `hdparm --security-erase`. -/
def destructive (c : Cmd) : Bool := c.target.isSome

/-- A pipeline that writes a whole drive. -/
def pipeline : Cmd → Bool
  | .zeroFill .. | .writeImage .. => true
  | _ => false

end Cmd

/-- The installer's scripts. -/
abbrev Sh := Script Cmd Answer

/-- A command, the trace entry it leaves being the command and its answer. -/
abbrev Event := Cmd × Answer

/-- A command for its exit status. -/
def status (c : Cmd) : Sh Nat := .call c fun r => .ret r.status

/-- A command for its output, as in `$(...)`. -/
def output (c : Cmd) : Sh String := .call c fun r => .ret r.out

/-- A command whose answer is not looked at. -/
def exec (c : Cmd) : Sh PUnit := .call c fun _ => .ret ⟨⟩

end HassioInstaller
