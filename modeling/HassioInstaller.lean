import HassioInstaller.Installer.Consent
import HassioInstaller.Installer.SecureErase
import HassioInstaller.Installer.Password
import HassioInstaller.Installer.Warning
import HassioInstaller.Installer.Success
import HassioInstaller.Installer.Interrupt
import HassioInstaller.Installer.Host
import HassioInstaller.Installer.PidfileLock
import HassioInstaller.Installer.PidReuse
import HassioInstaller.Installer.Helpers
import HassioInstaller.Installer.MarkerScan
import HassioInstaller.Installer.Versions
import HassioInstaller.Installer.Drives
import HassioInstaller.Installer.Menus
import HassioInstaller.Installer.Labels
import HassioInstaller.Installer.FlashDrive
import HassioInstaller.Installer.QuickErase
import HassioInstaller.Installer.Ending
import HassioInstaller.Installer.Outcome
import HassioInstaller.Installer.DriveWork
import HassioInstaller.Installer.MountPoint
import HassioInstaller.Console.Restart
import HassioInstaller.Console.Switches
import HassioInstaller.Release.GitHub
import HassioInstaller.Release.Image
import HassioInstaller.Mkimage.Cached
import HassioInstaller.Mkimage.Complete
import HassioInstaller.Mkimage.BootMenus
import HassioInstaller.Mkimage.Iso
import HassioInstaller.Mkimage.Kill
import HassioInstaller.Release.Version
import HassioInstaller.Installer.Network
import HassioInstaller.Installer.LogUpload
