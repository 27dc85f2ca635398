import Xv6fs.Balloc.Mount
import Xv6fs.Fs.Grow
import Xv6fs.Fs.Insert
import Xv6fs.Dir.Contents
import Xv6fs.File.Read
import Xv6fs.File.Append
import Xv6fs.Super.Remount
import Xv6fs.Tree.Load
import Xv6fs.Inode.Local
import Xv6fs.Inode.Nodes
import Xv6fs.Inode.Views
import Xv6fs.Inode.Iget
import Xv6fs.Inode.Create
import Xv6fs.Tree.Map
import Xv6fs.Tree.Refs
import Xv6fs.Tree.Unlinked
import Xv6fs.Inode.Reload
import Xv6fs.Dir.Map
import Xv6fs.Super.Verdict
import Xv6fs.File.Available
import Xv6fs.File.Refused
import Xv6fs.Dir.Recorded
import Xv6fs.Dir.Listing
import Xv6fs.Dir.Dentry
import Xv6fs.Inode.Numbers
import Xv6fs.Dir.Lookup
import Xv6fs.Dir.Reported
import Xv6fs.Dir.Rename
import Xv6fs.Inode.Twins
import Xv6fs.Inode.Removed
import Xv6fs.Dir.Added
import Xv6fs.Inode.Made
import Xv6fs.File.Grows
import Xv6fs.Inode.Temporary
import Xv6fs.Super.Unwind
import Xv6fs.Fs.Allocators
import Xv6fs.Fs.Visits
import Xv6fs.Dir.Unchanged
import Xv6fs.Dir.Grows
import Xv6fs.Volume.State
import Xv6fs.Volume.Calls
import Xv6fs.Volume.Unlink
import Xv6fs.Volume.Create
import Xv6fs.Volume.Runs
import Xv6fs.Lib.Ends
import Xv6fs.Model.Mkxv6
import Xv6fs.Mkxv6.Laid
import Xv6fs.Mkxv6.Append
import Xv6fs.Mkxv6.Image
import Xv6fs.Mkxv6.Main
import Xv6fs.Mkxv6.Mounted
import Xv6fs.Mkxv6.Names
import Xv6fs.Mkxv6.ReadBack
import Xv6fs.Mkxv6.Runs
import Xv6fs.Mkxv6.Numbers
import Xv6fs.Mkxv6.Contents
import Xv6fs.Mkxv6.Counter
import Xv6fs.Volume.Kept
import Xv6fs.Volume.Links
